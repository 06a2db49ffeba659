import Eos.Analysis.FormatText
import Eos.Analysis.SerialLine
import Eos.Analysis.SerialPrint

/-!
# From `eos_printf` to the receiver

`eos_printf` prints what the pieces of its format stand for as long as that fits its buffer
(`eosPrintf_eq`), and in a fair run the receiver reads just that (`eosPrintf_received`).  A text
that fits the buffer leaves no room for widths and precisions that do not fit an `int`
(`formatFits_of_length`); only those of the strings are left to be checked.
-/

set_option autoImplicit false

namespace Eos.Analysis

open Eos.Lib (Recurs)
open Eos.Model
open Eos.Interface

/-! ## Texts that are not too long -/

section Lengths

variable {args : Args} {d : Directive} {r : Rendering} {ps : List FormatPiece}

/-- A filled field is as long as its text and as its width. -/
theorem length_filled (flags : Int32) (width : Int) (text : List UInt8) :
    text.length ≤ (filled flags width text).length ∧ width ≤ (filled flags width text).length := by
  have hlength : (filled flags width text).length =
      text.length + (width - text.length).toNat := by
    rw [filled]
    split
    · rw [List.length_append, List.length_replicate]
    · rw [List.length_append, List.length_replicate, Nat.add_comm]
  omega

/-- A printed number is as long as its precision and as its width. -/
theorem length_numberText (num : Int64) (base type : Int32) (width precision : Int) :
    precision ≤ (numberText num base type width precision).length ∧
      width ≤ (numberText num base type width precision).length := by
  simp only [numberText, NumberText.text, List.length_append, List.length_replicate]
  cases decide (type &&& Flag.left ≠ 0) <;> cases decide (type &&& Flag.zeropad ≠ 0) <;>
    simp only [Bool.or_self, Bool.or_true, Bool.or_false, Bool.not_true, Bool.not_false,
      Bool.false_and, Bool.and_false, Bool.and_self, Bool.false_eq_true, if_true,
      if_false] <;> omega

/-- A number is printed with its precision, and with its width or a greater one. -/
theorem print_number (hd : d.IsNumber) (args : Args) (r : Rendering) :
    ∃ num base type width, (d.print args r).str =
        r.str ++ numberText num base type width (d.field args r.taken).precision ∧
      (d.field args r.taken).width ≤ width := by
  rcases hd with hp | hs
  · have hc : d.conversion ≠ 'c'.toUInt8 := by
      rw [hp]
      decide
    have hs : d.conversion ≠ 's'.toUInt8 := by
      rw [hp]
      decide
    by_cases hnone : (d.field args r.taken).width = -1
    · refine ⟨(args.word (d.field args r.taken).taken).toInt64, 16,
        (d.field args r.taken).flags ||| Flag.zeropad, 16, ?_, by rw [hnone]; decide⟩
      simp only [Directive.print, if_neg hc, if_neg hs, if_pos hp, if_pos hnone]
      rfl
    · refine ⟨(args.word (d.field args r.taken).taken).toInt64, 16, (d.field args r.taken).flags,
        _, ?_, le_rfl⟩
      simp only [Directive.print, if_neg hc, if_neg hs, if_pos hp, if_neg hnone]
      rfl
  · obtain ⟨⟨base, flag⟩, hb⟩ := Option.isSome_iff_exists.mp hs
    have hne : ∀ c, integerBase c = none → d.conversion ≠ c := by
      rintro c hc rfl
      rw [hc] at hb
      cases hb
    refine ⟨integerValue (args.word (d.field args r.taken).taken) d.qualifier
      ((d.field args r.taken).flags ||| flag), base, (d.field args r.taken).flags ||| flag, _, ?_,
      le_rfl⟩
    rw [Directive.print]
    simp only [if_neg (hne 'c'.toUInt8 rfl), if_neg (hne 's'.toUInt8 rfl),
      if_neg (hne 'n'.toUInt8 rfl), if_neg (hne '%'.toUInt8 rfl), if_neg (hne 'p'.toUInt8 rfl), hb]
    rfl

/-- A string fills its width. -/
theorem print_string (hd : d.IsString) (args : Args) (r : Rendering) :
    (d.print args r).str = r.str ++ filled (d.field args r.taken).flags
      (d.field args r.taken).width (stringText args (args.word (d.field args r.taken).taken)
        (d.field args r.taken).precision) := by
  have hs : d.conversion = 's'.toUInt8 := hd
  rw [Directive.print]
  simp only [hs]
  rfl

/-- What fills its width is at least as long. -/
theorem width_le_length (hd : d.Fills) (args : Args) (r : Rendering) :
    (d.field args r.taken).width ≤ (d.print args r).str.length := by
  rcases hd with hc | hs | hn
  · have hprint : (d.print args r).str = r.str ++ filled (d.field args r.taken).flags
        (d.field args r.taken).width [(args.word (d.field args r.taken).taken).toUInt8] := by
      rw [Directive.print]
      simp only [hc]
      rfl
    have hfilled := (length_filled (d.field args r.taken).flags (d.field args r.taken).width
      [(args.word (d.field args r.taken).taken).toUInt8]).2
    rw [hprint, List.length_append]
    omega
  · have hfilled := (length_filled (d.field args r.taken).flags (d.field args r.taken).width
      (stringText args (args.word (d.field args r.taken).taken)
        (d.field args r.taken).precision)).2
    rw [print_string hs, List.length_append]
    omega
  · obtain ⟨num, base, type, width, hprint, hwidth⟩ := print_number hn args r
    have hnumber :=
      (length_numberText num base type width (d.field args r.taken).precision).2
    rw [hprint, List.length_append]
    omega

/-- A piece only appends text. -/
theorem length_le_print (args : Args) (r : Rendering) (p : FormatPiece) :
    r.str.length ≤ (p.print args r).str.length := by
  have happend : ∀ text : List UInt8, r.str.length ≤ (r.str ++ text).length := fun text => by
    rw [List.length_append]
    exact Nat.le_add_right ..
  cases p with
  | text c => exact happend [c]
  | directive d =>
    rw [FormatPiece.print, Directive.print]
    split_ifs
    · exact happend _
    · exact happend _
    · exact happend _
    · exact happend _
    · exact le_rfl
    · exact le_rfl
    · exact happend _
    · split <;> exact happend _
    · split <;> exact happend _

/-- So do all pieces. -/
theorem length_le_printAll (args : Args) (ps : List FormatPiece) (r : Rendering) :
    r.str.length ≤ (printAll args ps r).str.length := by
  induction ps generalizing r with
  | nil => exact le_rfl
  | cons p ps ih => exact (length_le_print args r p).trans (ih _)

/-- A written width that is a part of a short text fits an `int`. -/
theorem amountFits_of_value {amount : Option Amount} {n : Nat} (hn : n < 2 ^ 31 - 48)
    (h : ∀ ds, amount = some (.digits ds) → (Amount.digits ds).value 0 ≤ n) :
    AmountFits amount := by
  intro ds hds
  have := h ds hds
  omega

/-- **A directive of a short text fits** if its string does. -/
theorem fits_of_length (hs : d.StringFits args r.taken)
    (hroom : (d.print args r).str.length < 2 ^ 31 - 48) : d.Fits args r.taken where
  width hd := by
    refine amountFits_of_value hroom fun ds hds => ?_
    have hwidth := width_le_length hd args r
    rw [Directive.field, hds] at hwidth
    exact hwidth
  width_arg hd hstar := by
    have hwidth := width_le_length hd args r
    rw [Directive.field, hstar] at hwidth
    have habs : |(args.int r.taken).toInt| ≤ (d.print args r).str.length := hwidth
    have hneg := neg_le_abs (args.int r.taken).toInt
    omega
  precision hd amount hamount := by
    rcases hd with hd | hd
    · exact (hs hd).1 amount hamount
    · refine amountFits_of_value hroom fun ds hds => ?_
      obtain ⟨num, base, type, width, hprint, -⟩ := print_number hd args r
      have hnumber :=
        (length_numberText num base type width (d.field args r.taken).precision).1
      have hvalue : (d.field args r.taken).precision = max 0 ((Amount.digits ds).value
          (args.int (r.taken + (d.width.map Amount.takes).getD 0)).toInt) := by
        rw [Directive.field, hamount, hds]
      have hle : (Amount.digits ds).value 0 ≤ (d.field args r.taken).precision := by
        rw [hvalue]
        exact le_max_right ..
      rw [hprint, List.length_append]
      omega
  precision_le hd := by
    obtain ⟨num, base, type, width, hprint, -⟩ := print_number hd args r
    have hnumber := (length_numberText num base type width (d.field args r.taken).precision).1
    rw [hprint, List.length_append] at hroom
    omega
  string_ends hd := (hs hd).2
  string_length hd := by
    have hfilled := (length_filled (d.field args r.taken).flags (d.field args r.taken).width
      (stringText args (args.word (d.field args r.taken).taken)
        (d.field args r.taken).precision)).1
    rw [print_string hd, List.length_append] at hroom
    omega

/-- **The directives of a short text fit** if the strings do. -/
theorem formatFits_of_length (hs : StringsFit args r ps)
    (hroom : (printAll args ps r).str.length < 2 ^ 31 - 48) : FormatFits args r ps := by
  induction ps generalizing r with
  | nil => trivial
  | cons p ps ih =>
    refine ⟨?_, ih hs.2 hroom⟩
    rintro d rfl
    exact fits_of_length (hs.1 d rfl) ((length_le_printAll args ps _).trans_lt hroom)

end Lengths

/-! ## `eos_printf` -/

/-- What `vsprintf` prints of a format. -/
def formatText (args : Args) (ps : List FormatPiece) : List UInt8 :=
  (printAll args ps ⟨0, [], []⟩).str

/-- A terminator behind a text does not change what is printed of it. -/
theorem takeWhile_append_zero {s : List UInt8} :
    (s ++ [0]).takeWhile (fun c => c ≠ 0) = s.takeWhile fun c => c ≠ 0 := by
  induction s with
  | nil => rfl
  | cons c s ih =>
    rw [List.cons_append, List.takeWhile_cons, List.takeWhile_cons, ih]

/-- **`eos_printf`** prints the text up to its first zero character, or it writes behind the end of
its buffer. -/
theorem eosPrintf_eq {args : Args} {text : List UInt8} {ps : List FormatPiece}
    (hspells : FormatSpells ps (text ++ [0])) (hfits : FormatFits args ⟨0, [], []⟩ ps)
    {fuel : Nat} (hfuel : text.length < fuel) :
    eosPrintf (text ++ [0]) args fuel =
      if (formatText args ps).length < printBufferSize then
        some ((formatText args ps).takeWhile fun c => c ≠ 0)
      else none := by
  rw [eosPrintf, vsprintf_eq hspells hfits hfuel, Option.bind_eq_bind, Option.bind_some]
  have hlength : (printed args ps).buf.length ≤ printBufferSize ↔
      (formatText args ps).length < printBufferSize := by
    rw [printed, List.length_append, List.length_singleton]
    exact Nat.succ_le_iff
  simp only [hlength]
  split
  case isTrue =>
    have hzero : (0 : UInt8) ∈ (printed args ps).buf :=
      List.mem_append_right _ (List.mem_singleton_self 0)
    rw [earlyUartPuts, putsLoop_eq hzero]
    exact congrArg some takeWhile_append_zero
  case isFalse => rfl

/-- **From `eos_printf` to the receiver**: tasks that print with `eos_printf`, each a text that fits
the buffer and whose strings end, in a fair run in which no task writes while another one has found
room.  From some time on the receiver reads of each task what the pieces of its format stand
for. -/
theorem eosPrintf_received {T : Type} [DecidableEq T] [Fintype T] {depth : Nat}
    {run : Nat → SerialLine T} {event : Nat → SerialEvent T} {args : T → Args}
    {fmt : T → List UInt8} {ps : T → List FormatPiece} {fuel : T → Nat}
    (hspells : ∀ t, FormatSpells (ps t) (fmt t ++ [0]))
    (hstrings : ∀ t, StringsFit (args t) ⟨0, [], []⟩ (ps t))
    (hroom : ∀ t, (formatText (args t) (ps t)).length < printBufferSize)
    (hfuel : ∀ t, (fmt t).length < fuel t)
    (hrun : SendingRun depth WritesAlone
      (fun t => (eosPrintf (fmt t ++ [0]) (args t) (fuel t)).getD []) run event)
    (hdepth : 0 < depth) (hsend : Recurs event (· = .send))
    (haccess : ∀ t, Recurs event fun e => ∃ flags, e = .access t flags) :
    ∃ n, ∀ m, n ≤ m → ∀ t, fromLine (bytesOf t (run m).fifo.delivered) =
      (formatText (args t) (ps t)).takeWhile fun c => c ≠ 0 := by
  obtain ⟨n, hn⟩ := run_ends hrun hdepth hsend haccess
  refine ⟨n, fun m hm t => ?_⟩
  have hfits : FormatFits (args t) ⟨0, [], []⟩ (ps t) :=
    formatFits_of_length (hstrings t) ((hroom t).trans (by decide))
  rw [received_of_ended (sends_run hrun m) (hn m hm) t,
    eosPrintf_eq (hspells t) hfits (hfuel t), if_pos (hroom t), Option.getD_some]

/-! ## Two tasks -/

/-- The piece of `"%.*s"`. -/
def stringPieces : List FormatPiece :=
  [.directive ⟨[], none, some (some .star), none, 's'.toUInt8⟩]

/-- The format spells it. -/
theorem string_spells : FormatSpells stringPieces (chars "%.*s" ++ [0]) := by
  refine .directive (d := ⟨[], none, some (some .star), none, 's'.toUInt8⟩) (by decide) ?_ .nil
  exact
    { flags := fun _ h => absurd h List.not_mem_nil
      flags_end := nextIs_cons.mpr (by decide)
      width := nextIs_cons.mpr (by decide)
      precision_none := fun h => absurd h (Option.some_ne_none _)
      precision_some := by
        rintro amount ⟨⟩
        trivial
      qualifier_none := fun _ => nextIs_cons.mpr (by decide)
      qualifier_some := fun _ h => absurd h (Option.some_ne_none _).symm
      conversion := rfl }

/-- The greatest precision, and a string. -/
def stringArgs : Args where
  word taken := if taken = 0 then 2147483647 else 1
  string _ := chars "eos" ++ [0]

/-- The string ends. -/
theorem string_fits : StringsFit stringArgs ⟨0, [], []⟩ stringPieces := by
  refine ⟨?_, trivial⟩
  rintro d ⟨⟩ -
  refine ⟨?_, fun _ => .inl (List.mem_append_right _ (List.mem_singleton_self 0))⟩
  rintro amount ⟨⟩ ds ⟨⟩

/-- What two tasks print: a number in a field, and a string. -/
def bothPieces (t : Bool) : List FormatPiece := if t then stringPieces else bracketedPieces

/-- Their formats. -/
def bothFormats (t : Bool) : List UInt8 := if t then chars "%.*s" else chars "[%5d]"

/-- Their arguments. -/
def bothArgs (t : Bool) : Args := if t then stringArgs else ⟨fun _ => 42, fun _ => []⟩

/-- The receiver reads `[   42]` and `eos`. -/
theorem eosPrintf_received_both :
    ∃ n, ∀ m, n ≤ m → ∀ t, fromLine (bytesOf t (turnRun 16
      (fun t => (eosPrintf (bothFormats t ++ [0]) (bothArgs t) 6).getD []) bothTurn
        m).fifo.delivered) = if t then chars "eos" else chars "[   42]" := by
  have hspells : ∀ t, FormatSpells (bothPieces t) (bothFormats t ++ [0]) := by
    intro t
    cases t with
    | false => exact bracketed_spells
    | true => exact string_spells
  have hstrings : ∀ t, StringsFit (bothArgs t) ⟨0, [], []⟩ (bothPieces t) := by
    intro t
    cases t with
    | false => exact bracketed_strings _
    | true => exact string_fits
  have hlength : ∀ t, (bothFormats t).length < 6 := by decide
  have hdepth : 0 < 16 := by decide
  obtain ⟨n, hn⟩ := eosPrintf_received hspells hstrings (by decide) hlength
    (turnRun_sending hdepth _ bothTurn) hdepth (turnEvent_send bothTurn)
    fun t => turnEvent_access (recurs_bothTurn t)
  refine ⟨n, fun m hm t => (hn m hm t).trans ?_⟩
  cases t <;> decide

end Eos.Analysis
