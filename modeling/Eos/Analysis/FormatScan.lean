import Eos.Analysis.Numbers
import Eos.Lib.Total

/-!
# The scan of a format stops at its terminator

A step of the scan passes a character only if it is not the terminator, so that it stays within
the format (`getSpec_within`).  Where the conversion is the terminator itself, the one step
back and the step of the main loop leave the scan at it (`convert_within`); every round of the
main loop moves ahead, and `vsprintf` ends (`vsprintf_ends`).
-/

set_option autoImplicit false

namespace Eos.Analysis

open Eos.Lib (Yields ends_of_variant)
open Eos.Model

variable {text s str : List UInt8} {args : Args} {spec : Spec} {p n taken : Nat} {i flags : Int32}
  {c : UInt8}

/-! ## Reading -/

/-- A character that is read is not behind the terminator; if it is not the terminator, the next one
can be read, too. -/
theorem read_next (hread : (text ++ [0])[p]? = some c) (hc : c ≠ 0) : p + 1 ≤ text.length := by
  have hlt := lt_length_of_read hread
  rw [List.length_append, List.length_singleton] at hlt
  by_contra hnot
  have heq : p = text.length := by omega
  rw [heq, List.getElem?_concat_length, Option.some_inj] at hread
  exact hc hread.symm

/-- A character up to the terminator can be read. -/
theorem read_yields (hp : p ≤ text.length) :
    Yields (text ++ [0])[p]? fun c => c ≠ 0 → p + 1 ≤ text.length := by
  have hlt : p < (text ++ [0]).length := by
    rw [List.length_append, List.length_singleton]
    omega
  have hread := List.getElem?_eq_getElem hlt
  rw [hread]
  exact Yields.some (read_next hread)

/-- The terminator is no digit. -/
theorem ne_zero_of_isDigit (h : isDigit c) : c ≠ 0 := by
  rintro rfl
  exact absurd h (by decide)

/-- The terminator is no flag. -/
theorem ne_zero_of_flagOf (h : flagOf c ≠ 0) : c ≠ 0 := by
  rintro rfl
  exact h (by decide)

/-- One round of `skip_atoi`. -/
theorem skipAtoi_eq (fmt : List UInt8) :
    skipAtoi fmt p i = (do
      let c ← fmt[p]?
      if isDigit c then skipAtoi fmt (p + 1) (i * 10 + charInt c - charInt '0'.toUInt8)
      else some (p, i)) := by
  rw [skipAtoi]
  split
  case h_1 h => rw [h]; rfl
  case h_2 c h => rw [h]; rfl

/-- The digits end at the terminator at the latest. -/
theorem skipAtoi_within (hp : p ≤ text.length) :
    Yields (skipAtoi (text ++ [0]) p i) fun r => p ≤ r.1 ∧ r.1 ≤ text.length := by
  induction p, i using skipAtoi.induct (text ++ [0]) with
  | case1 p i hnone =>
    obtain ⟨c, hread, -⟩ := read_yields hp
    rw [hread] at hnone
    exact absurd hnone (Option.some_ne_none c)
  | case2 p i c hread hdigit ih =>
    have hnext := read_next hread (ne_zero_of_isDigit hdigit)
    rw [skipAtoi_eq, hread, Option.bind_eq_bind, Option.bind_some, if_pos hdigit]
    exact (ih hnext).mono fun r hr => ⟨by omega, hr.2⟩
  | case3 p i c hread hdigit =>
    rw [skipAtoi_eq, hread, Option.bind_eq_bind, Option.bind_some, if_neg hdigit]
    exact Yields.some ⟨le_rfl, hp⟩

/-- One round of the loop over the flags. -/
theorem repeatFlags_eq (fmt : List UInt8) :
    repeatFlags fmt p flags = (do
      let c ← fmt[p + 1]?
      if flagOf c ≠ 0 then repeatFlags fmt (p + 1) (flags ||| flagOf c)
      else some (p + 1, flags)) := by
  rw [repeatFlags]
  split
  case h_1 h => rw [h]; rfl
  case h_2 c h => rw [h]; rfl

/-- The flags end at the terminator at the latest. -/
theorem repeatFlags_within (hp : p + 1 ≤ text.length) :
    Yields (repeatFlags (text ++ [0]) p flags) fun r => p + 1 ≤ r.1 ∧ r.1 ≤ text.length := by
  induction p, flags using repeatFlags.induct (text ++ [0]) with
  | case1 p flags hnone =>
    obtain ⟨c, hread, -⟩ := read_yields hp
    rw [hread] at hnone
    exact absurd hnone (Option.some_ne_none c)
  | case2 p flags c hread hflag ih =>
    have hnext := read_next hread (ne_zero_of_flagOf hflag)
    rw [repeatFlags_eq, hread, Option.bind_eq_bind, Option.bind_some, if_pos hflag]
    exact (ih hnext).mono fun r hr => ⟨by omega, hr.2⟩
  | case3 p flags c hread hflag =>
    rw [repeatFlags_eq, hread, Option.bind_eq_bind, Option.bind_some, if_neg hflag]
    exact Yields.some ⟨le_rfl, hp⟩

/-! ## The parts of a specification -/

/-- The scan is between the position `p` and the terminator. -/
def InFormat (text : List UInt8) (p : Nat) (spec : Spec) : Prop :=
  p ≤ spec.fmt ∧ spec.fmt ≤ text.length

/-- Reading the field width stays within the format. -/
theorem getFieldWidth_within (hp : spec.fmt ≤ text.length) :
    Yields (getFieldWidth (text ++ [0]) args spec) (InFormat text spec.fmt) := by
  apply (read_yields hp).bind
  intro c hnext
  apply Yields.ite
  · intro _
    apply (skipAtoi_within hp).bind
    intro r hr
    exact Yields.some hr
  · intro _
    apply Yields.ite
    · rintro rfl
      have hle : spec.fmt + 1 ≤ text.length := hnext (by decide)
      apply Yields.ite
      · intro _
        exact Yields.some ⟨Nat.le_succ _, hle⟩
      · intro _
        exact Yields.some ⟨Nat.le_succ _, hle⟩
    · intro _
      exact Yields.some ⟨le_rfl, hp⟩

/-- Reading a precision behind its dot stays within the format. -/
theorem getPrecisionValue_within (hp : spec.fmt ≤ text.length) :
    Yields (getPrecisionValue (text ++ [0]) args spec) (InFormat text spec.fmt) := by
  apply (read_yields hp).bind
  intro c hnext
  apply Yields.ite
  · intro _
    apply (skipAtoi_within hp).bind
    intro r hr
    exact Yields.some hr
  · intro _
    apply Yields.ite
    · rintro rfl
      exact Yields.some ⟨Nat.le_succ _, hnext (by decide)⟩
    · intro _
      exact Yields.some ⟨le_rfl, hp⟩

/-- Reading an optional precision stays within the format. -/
theorem getPrecision_within (hp : spec.fmt ≤ text.length) :
    Yields (getPrecision (text ++ [0]) args spec) (InFormat text spec.fmt) := by
  apply (read_yields hp).bind
  intro c hnext
  apply Yields.ite
  · rintro rfl
    have hle : spec.fmt + 1 ≤ text.length := hnext (by decide)
    have hvalue : Yields (getPrecisionValue (text ++ [0]) args { spec with fmt := spec.fmt + 1 })
        (InFormat text (spec.fmt + 1)) := getPrecisionValue_within hle
    apply hvalue.bind
    intro spec' h
    have hle' : spec.fmt ≤ spec'.fmt := Nat.le_of_succ_le h.1
    apply Yields.some
    split
    · exact ⟨hle', h.2⟩
    · exact ⟨hle', h.2⟩
  · intro _
    exact Yields.some ⟨le_rfl, hp⟩

/-- Reading the qualifier stays within the format. -/
theorem getQualifier_within (hp : spec.fmt ≤ text.length) :
    Yields (getQualifier (text ++ [0]) spec) (InFormat text spec.fmt) := by
  apply (read_yields hp).bind
  intro c hnext
  apply Yields.ite
  · intro hc
    have hne : c ≠ 0 := by
      rintro rfl
      exact absurd hc (by decide)
    exact Yields.some ⟨Nat.le_succ _, hnext hne⟩
  · intro _
    exact Yields.some ⟨le_rfl, hp⟩

/-- **The scan of a specification** ends between the `%` and the terminator. -/
theorem getSpec_within (hp : p + 1 ≤ text.length) :
    Yields (getSpec (text ++ [0]) args p taken) (InFormat text (p + 1)) := by
  apply (repeatFlags_within hp).bind
  intro r hr
  apply (getFieldWidth_within hr.2).bind
  intro s₁ h₁
  apply (getPrecision_within h₁.2).bind
  intro s₂ h₂
  apply (getQualifier_within h₂.2).mono
  intro s₃ h₃
  exact ⟨hr.1.trans (h₁.1.trans (h₂.1.trans h₃.1)), h₃.2⟩

/-! ## Conversions -/

/-- `strnlen` ends on a terminated string. -/
theorem strnlen_yields {count : UInt64} (hs : 0 ∈ s) :
    Yields (strnlen s count) fun n => n ≤ s.length := by
  induction s generalizing count with
  | nil => exact absurd hs List.not_mem_nil
  | cons c s ih =>
    rw [strnlen]
    apply Yields.ite
    · intro _
      exact Yields.some (Nat.zero_le _)
    · intro _
      apply Yields.ite
      · intro _
        exact Yields.some (Nat.zero_le _)
      · intro hc
        have hs : 0 ∈ s := (List.mem_cons.mp hs).resolve_left fun h => hc h.symm
        exact (ih hs).map fun n hn => Nat.succ_le_succ hn

/-- Copying characters of a string that has as many. -/
theorem copyChars_yields (hn : n ≤ s.length) : Yields (copyChars n s str) fun _ => True := by
  induction n generalizing s str with
  | zero => exact Yields.some trivial
  | succ n ih =>
    cases s with
    | nil => exact absurd hn (Nat.not_succ_le_zero n)
    | cons c s => exact ih (Nat.le_of_succ_le_succ hn)

/-- A length that is cut to an `int` does not grow. -/
theorem toInt_ofNat_toNat_le (n : Nat) : (Int32.ofNat n).toInt.toNat ≤ n := by
  have hsize : (Int32.size : Int) = 2 ^ 32 := rfl
  rw [Int32.toInt_ofNat', Int.bmod_def, hsize]
  split <;> omega

/-- `number` ends for every number and field. -/
theorem number_yields {num : Int64} {base size precision type : Int32}
    (hb : 2 ≤ base.toInt ∧ base.toInt ≤ 36) :
    Yields (number str num base size precision type) fun _ => True := by
  rw [number_eq hb]
  exact Yields.some trivial

/-- The argument that a `%s` takes is `NULL` or leads to a string that is terminated. -/
def Terminated (args : Args) (spec : Spec) : Prop :=
  args.word spec.taken ≠ 0 → 0 ∈ args.string (args.word spec.taken)

/-- The conversion `%s` ends if its argument is terminated. -/
theorem convertString_yields (hargs : Terminated args spec) :
    Yields (convertString args spec str) fun _ => True := by
  have hs : 0 ∈ if args.word spec.taken = 0 then chars "<NULL>" ++ [0]
      else args.string (args.word spec.taken) := by
    split
    case isTrue => exact List.mem_append_right _ (List.mem_singleton_self 0)
    case isFalse h => exact hargs h
  apply (strnlen_yields hs).bind
  intro n hn
  apply (copyChars_yields ((toInt_ofNat_toNat_le n).trans hn)).bind
  intro str' _
  exact Yields.some trivial

/-- The conversion `%p` ends. -/
theorem convertPointer_yields : Yields (convertPointer args spec str) fun _ => True := by
  apply Yields.ite
  · intro _
    exact number_yields (by decide)
  · intro _
    exact number_yields (by decide)

/-- The conversions of integers end. -/
theorem convertInteger_yields {base : Int32} (hb : 2 ≤ base.toInt ∧ base.toInt ≤ 36) :
    Yields (convertInteger args spec base flags str) fun _ => True := number_yields hb

/-- **A conversion leaves the scan at the character that it ends with**, or ahead of it if that is
the terminator; it is not passed by the step of the main loop. -/
theorem convert_within {stores : List Store}
    (hargs : (text ++ [0])[spec.fmt]? = some 's'.toUInt8 → Terminated args spec)
    (hpos : 0 < spec.fmt) (hp : spec.fmt ≤ text.length) :
    Yields (convert (text ++ [0]) args spec str stores) fun s =>
      spec.fmt ≤ s.fmt + 1 ∧ s.fmt + 1 ≤ text.length := by
  obtain ⟨c, hread, hnext⟩ := read_yields hp
  rw [convert, hread, Option.bind_eq_bind, Option.bind_some]
  have hstay : ∀ d : UInt8, d ≠ 0 → c = d →
      spec.fmt ≤ spec.fmt + 1 ∧ spec.fmt + 1 ≤ text.length := by
    rintro d hd rfl
    exact ⟨Nat.le_succ _, hnext hd⟩
  apply Yields.ite
  · intro h
    exact Yields.some (hstay _ (by decide) h)
  intro _
  apply Yields.ite
  · intro h
    exact (convertString_yields (hargs (h ▸ hread))).map fun _ _ => hstay _ (by decide) h
  intro _
  apply Yields.ite
  · intro h
    exact convertPointer_yields.map fun _ _ => hstay _ (by decide) h
  intro _
  apply Yields.ite
  · intro h
    exact Yields.some (hstay _ (by decide) h)
  intro _
  apply Yields.ite
  · intro h
    exact Yields.some (hstay _ (by decide) h)
  intro _
  apply Yields.ite
  · intro h
    exact (convertInteger_yields (by decide)).map fun _ _ => hstay _ (by decide) h
  intro _
  apply Yields.ite
  · intro h
    exact (convertInteger_yields (by decide)).map fun _ _ => hstay _ (by decide) h
  intro _
  apply Yields.ite
  · intro h
    exact (convertInteger_yields (by decide)).map fun _ _ => hstay _ (by decide) h
  intro _
  apply Yields.ite
  · rintro (h | h)
    · exact (convertInteger_yields (by decide)).map fun _ _ => hstay _ (by decide) h
    · exact (convertInteger_yields (by decide)).map fun _ _ => hstay _ (by decide) h
  intro _
  apply Yields.ite
  · intro h
    exact (convertInteger_yields (by decide)).map fun _ _ => hstay _ (by decide) h
  intro _
  apply Yields.ite
  · intro h
    exact Yields.some (hstay c h rfl)
  · intro _
    -- the terminator: one step back, which the main loop takes again
    have hback : spec.fmt - 1 + 1 = spec.fmt := Nat.sub_add_cancel hpos
    exact Yields.some ⟨hback.ge, hback.trans_le hp⟩

/-! ## The main loop -/

/-- The states that the main loop gets to. -/
inductive Scans (fmt : List UInt8) (args : Args) : Printer → Prop
  | start : Scans fmt args ⟨0, 0, [], []⟩
  | round {st st' : Printer} {c : UInt8} : Scans fmt args st → fmt[st.fmt]? = some c → c ≠ 0 →
      formatRound fmt args c st = some st' → Scans fmt args { st' with fmt := st'.fmt + 1 }

/-- Every string that is printed is terminated. -/
def StringsTerminated (fmt : List UInt8) (args : Args) : Prop :=
  ∀ st spec, Scans fmt args st → fmt[st.fmt]? = some '%'.toUInt8 →
    getSpec fmt args st.fmt st.taken = some spec → fmt[spec.fmt]? = some 's'.toUInt8 →
    Terminated args spec

/-- A round of the main loop and its step move ahead, to the terminator at most. -/
theorem formatRound_within {st : Printer} (hargs : StringsTerminated (text ++ [0]) args)
    (hst : Scans (text ++ [0]) args st) (hread : (text ++ [0])[st.fmt]? = some c) (hc : c ≠ 0) :
    Yields (formatRound (text ++ [0]) args c st) fun st' =>
      st.fmt < st'.fmt + 1 ∧ st'.fmt + 1 ≤ text.length := by
  have hp := read_next hread hc
  apply Yields.ite
  · intro _
    exact Yields.some ⟨Nat.lt_succ_self _, hp⟩
  · intro hpercent
    obtain ⟨spec, hspec, hwithin⟩ := getSpec_within hp
    rw [hspec]
    have hstring := hargs st spec hst (not_not.mp hpercent ▸ hread) hspec
    apply (convert_within hstring (Nat.zero_lt_of_lt hwithin.1) hwithin.2).mono
    intro st' h
    exact ⟨hwithin.1.trans h.1, h.2⟩

/-- The main loop ends, whatever there is in the format. -/
theorem formatLoop_ends (hargs : StringsTerminated (text ++ [0]) args) :
    ∃ r, ∀ fuel, text.length < fuel →
      formatLoop (text ++ [0]) args fuel ⟨0, 0, [], []⟩ = some r := by
  have hstart : Scans (text ++ [0]) args ⟨0, 0, [], []⟩ ∧ 0 ≤ text.length :=
    ⟨.start, Nat.zero_le _⟩
  refine ends_of_variant (I := fun st => Scans (text ++ [0]) args st ∧ st.fmt ≤ text.length)
    (v := fun st => text.length - st.fmt) ?_ hstart
  rintro st ⟨hst, hp⟩
  obtain ⟨c, hread, hnext⟩ := read_yields hp
  by_cases hc : c = 0
  · refine Or.inl ⟨st, fun fuel => ?_⟩
    rw [formatLoop, hread, Option.bind_eq_bind, Option.bind_some, if_pos hc]
    rfl
  · obtain ⟨st', hround, hlt, hle⟩ := formatRound_within hargs hst hread hc
    refine Or.inr ⟨{ st' with fmt := st'.fmt + 1 }, ⟨.round hst hread hc hround, hle⟩, ?_,
      fun fuel => ?_⟩
    · have hp' := hnext hc
      show text.length - (st'.fmt + 1) < text.length - st.fmt
      omega
    · rw [formatLoop, hread, Option.bind_eq_bind, Option.bind_some, if_neg hc, hround,
        Option.bind_eq_bind, Option.bind_some]

/-- **The scanner stops at the terminator**: if the strings that it prints are terminated,
`vsprintf` ends for every format, and reads no character behind the end of the format. -/
theorem vsprintf_ends (text : List UInt8) (hargs : StringsTerminated (text ++ [0]) args) :
    ∃ r, ∀ fuel, text.length < fuel → vsprintf (text ++ [0]) args fuel = some r := by
  obtain ⟨st, hst⟩ := formatLoop_ends hargs
  refine ⟨⟨st.str ++ [0], st.stores, Int32.ofNat st.str.length⟩, fun fuel hfuel => ?_⟩
  rw [vsprintf, hst fuel hfuel, Option.bind_eq_bind, Option.bind_some]
  rfl

/-- A format that ends behind a `.`, and strings. -/
theorem vsprintf_ends_cut :
    ∃ r, ∀ fuel, (chars "%5s%-05*.").length < fuel →
      vsprintf (chars "%5s%-05*." ++ [0]) ⟨fun _ => 4, fun _ => chars "eos" ++ [0]⟩ fuel = some r :=
  vsprintf_ends _ fun _ _ _ _ _ _ _ => List.mem_append_right _ (List.mem_singleton_self 0)

end Eos.Analysis
