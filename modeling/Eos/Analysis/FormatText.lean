import Eos.Interface.FormatText
import Eos.Analysis.FormatScan
import Eos.Lib.Scan
import Mathlib.Data.List.TakeWhile

/-!
# What `vsprintf` prints

The scanner reads a directive as far as its parts go (`getSpec_reads`), each conversion prints what
the directive stands for (`convert_prints`), and so `vsprintf` prints what the pieces of its format
stand for (`vsprintf_prints`).  Every format consists of pieces (`exists_formatSpells`).
-/

set_option autoImplicit false

namespace Eos.Analysis

open Eos.Lib (readNumeral readDigit readDigit_eq numeral numeralLength Ahead)
open Eos.Model
open Eos.Interface

variable {fmt rest ds : List UInt8} {args : Args} {p taken : Nat} {flags i : Int32} {c : UInt8}
  {d : Directive}

/-! ## The next character -/

/-- The next character is the first one. -/
theorem nextIs_cons {ok : UInt8 → Prop} : NextIs (c :: rest) ok ↔ ok c := by
  constructor
  · exact fun h => h c rfl
  · rintro h c' ⟨⟩
    exact h

/-- What is ahead of the scanner begins with a character. -/
theorem exists_read (h : Ahead fmt p rest) (hne : rest ≠ []) :
    ∃ c rest', rest = c :: rest' ∧ fmt[p]? = some c := by
  obtain ⟨c, rest', rfl⟩ := List.exists_cons_of_ne_nil hne
  exact ⟨c, rest', rfl, h.read⟩

/-! ## Flags and numbers -/

/-- The loop over the flags reads them all and stops at the first other character. -/
theorem repeatFlags_reads {fs : List UInt8} (hfs : ∀ c ∈ fs, flagOf c ≠ 0) (hne : rest ≠ [])
    (hend : NextIs rest fun c => flagOf c = 0) (h : Ahead fmt (p + 1) (fs ++ rest)) :
    repeatFlags fmt p flags =
      some (p + 1 + fs.length, fs.foldl (fun flags c => flags ||| flagOf c) flags) := by
  induction fs generalizing p flags with
  | nil =>
    obtain ⟨c, rest', rfl, hread⟩ := exists_read h hne
    rw [repeatFlags_eq, hread, Option.bind_eq_bind, Option.bind_some,
      if_neg (not_not.mpr (nextIs_cons.mp hend))]
    rfl
  | cons c fs ih =>
    have hread : fmt[p + 1]? = some c := h.read
    rw [repeatFlags_eq, hread, Option.bind_eq_bind, Option.bind_some,
      if_pos (hfs c List.mem_cons_self), ih (fun d hd => hfs d (List.mem_cons_of_mem c hd)) h.next,
      List.length_cons, List.foldl_cons]
    congr 2
    omega

/-- What `skip_atoi` computes. -/
def atoi (ds : List UInt8) (i : Int32) : Int32 :=
  ds.foldl (fun i c => i * 10 + charInt c - charInt '0'.toUInt8) i

/-- `skip_atoi` reads all digits and stops at the first other character. -/
theorem skipAtoi_reads (hds : ∀ c ∈ ds, isDigit c) (hne : rest ≠ [])
    (hend : NextIs rest fun c => ¬isDigit c) (h : Ahead fmt p (ds ++ rest)) :
    skipAtoi fmt p i = some (p + ds.length, atoi ds i) := by
  induction ds generalizing p i with
  | nil =>
    obtain ⟨c, rest', rfl, hread⟩ := exists_read h hne
    rw [skipAtoi_eq, hread, Option.bind_eq_bind, Option.bind_some, if_neg (nextIs_cons.mp hend)]
    rfl
  | cons c ds ih =>
    have hread : fmt[p]? = some c := h.read
    rw [skipAtoi_eq, hread, Option.bind_eq_bind, Option.bind_some,
      if_pos (hds c List.mem_cons_self), ih (fun d hd => hds d (List.mem_cons_of_mem c hd)) h.next,
      List.length_cons]
    congr 2
    omega

/-- The value of a decimal digit. -/
theorem digitValue_of_isDigit (hc : isDigit c) :
    digitValue c = some (c.toNat - 48) ∧ 48 ≤ c.toNat ∧ c.toNat < 58 := by
  have hrange : '0'.toUInt8 ≤ c ∧ c ≤ '9'.toUInt8 := by
    simpa [isDigit] using hc
  have h48 : 48 ≤ c.toNat := UInt8.le_iff_toNat_le.mp hrange.1
  have h57 : c.toNat ≤ 57 := UInt8.le_iff_toNat_le.mp hrange.2
  refine ⟨?_, h48, Nat.lt_succ_of_le h57⟩
  rw [digitValue, if_pos hc]
  rfl

/-- Digits are read as a number, which does not get smaller with one more of them. -/
theorem readDigits {n : Nat} (hds : ∀ c ∈ ds, isDigit c) :
    ∃ m, ds.foldlM (readDigit digitValue 10) n = some m ∧ n ≤ m := by
  induction ds generalizing n with
  | nil => exact ⟨n, rfl, le_rfl⟩
  | cons c ds ih =>
    obtain ⟨hvalue, hlo, hhi⟩ := digitValue_of_isDigit (hds c List.mem_cons_self)
    obtain ⟨m, hm, hle⟩ := ih (n := n * 10 + (c.toNat - 48))
      fun d hd => hds d (List.mem_cons_of_mem c hd)
    refine ⟨m, ?_, by omega⟩
    rw [List.foldlM_cons, readDigit_eq hvalue (by omega)]
    exact hm

/-- `skip_atoi` computes the number as long as it fits an `int`. -/
theorem atoi_toInt {n m : Nat} (hds : ∀ c ∈ ds, isDigit c)
    (hm : ds.foldlM (readDigit digitValue 10) n = some m) (hfits : m + 48 < 2 ^ 31)
    (hi : i.toInt = n) : (atoi ds i).toInt = m := by
  induction ds generalizing n i with
  | nil =>
    obtain rfl := Option.some.inj hm
    exact hi
  | cons c ds ih =>
    have hrest : ∀ d ∈ ds, isDigit d := fun d hd => hds d (List.mem_cons_of_mem c hd)
    obtain ⟨hvalue, hlo, hhi⟩ := digitValue_of_isDigit (hds c List.mem_cons_self)
    rw [List.foldlM_cons, readDigit_eq hvalue (by omega)] at hm
    obtain ⟨m', hm', hle⟩ := readDigits (n := n * 10 + (c.toNat - 48)) hrest
    obtain rfl : m' = m := Option.some.inj (hm'.symm.trans hm)
    apply ih hrest hm
    have hc : (charInt c).toInt = c.toNat := Int32.toInt_ofNat_of_lt (by omega)
    have h0 : (charInt '0'.toUInt8).toInt = 48 := rfl
    have h10 : (10 : Int32).toInt = 10 := rfl
    have hmul : (i * 10).toInt = n * 10 := by
      rw [Int32.toInt_mul, hi, h10, Int.bmod_eq_of_le (by omega) (by omega)]
    have hadd : (i * 10 + charInt c).toInt = n * 10 + c.toNat := by
      rw [Int32.toInt_add, hmul, hc, Int.bmod_eq_of_le (by omega) (by omega)]
    rw [Int32.toInt_sub, hadd, h0, Int.bmod_eq_of_le (by omega) (by omega)]
    omega

/-- The value of digits that does not overflow. -/
theorem atoi_value (hds : ∀ c ∈ ds, isDigit c)
    (hfits : (Amount.digits ds).value 0 + 48 < 2 ^ 31) :
    (atoi ds 0).toInt = (Amount.digits ds).value 0 := by
  obtain ⟨m, hm, -⟩ := readDigits (n := 0) hds
  have hread : readNumeral digitValue 10 ds = some m := hm
  rw [Amount.value, hread, Option.getD_some] at hfits ⊢
  exact atoi_toInt hds hm (by exact_mod_cast hfits) rfl

/-! ## Directives -/

/-- The flags of a directive. -/
def flagBits (d : Directive) : Int32 := d.flags.foldl (fun flags c => flags ||| flagOf c) 0

/-- How many arguments the width takes. -/
def widthTakes (d : Directive) : Nat := (d.width.map Amount.takes).getD 0

/-- The width of a directive, which has its value if that fits an `int`. -/
theorem getFieldWidth_reads (spec : Spec) (hreads : AmountReads d.width rest) (hne : rest ≠ [])
    (hflags : spec.flags = flagBits d) (h : Ahead fmt spec.fmt (d.widthSpelling ++ rest)) :
    ∃ spec', getFieldWidth fmt args spec = some spec' ∧
      spec'.flags = (d.field args spec.taken).flags ∧
      (AmountFits d.width → (d.width = some .star → -2 ^ 31 < (args.int spec.taken).toInt) →
        spec'.fieldWidth.toInt = (d.field args spec.taken).width) ∧
      spec'.taken = spec.taken + widthTakes d ∧ Ahead fmt spec'.fmt rest := by
  obtain ⟨flags, width, precision, qualifier, conversion⟩ := d
  dsimp only at hreads
  cases width with
  | none =>
    obtain ⟨c, rest', rfl, hread⟩ := exists_read (p := spec.fmt) h hne
    obtain ⟨hdigit, hstar⟩ := nextIs_cons.mp hreads
    refine ⟨{ spec with fieldWidth := -1 }, ?_, hflags, fun _ _ => rfl, rfl, h⟩
    rw [getFieldWidth, hread, Option.bind_eq_bind, Option.bind_some, if_neg hdigit, if_neg hstar]
    rfl
  | some amount =>
    cases amount with
    | digits ds =>
      obtain ⟨hne', hds, hend⟩ := hreads
      obtain ⟨c, ds', rfl⟩ := List.exists_cons_of_ne_nil hne'
      have hread : fmt[spec.fmt]? = some c := h.read
      refine ⟨{ spec with fmt := spec.fmt + (c :: ds').length, fieldWidth := atoi (c :: ds') 0 },
        ?_, hflags, fun hfits _ => atoi_value hds (hfits _ rfl), rfl, h.skip⟩
      rw [getFieldWidth, hread, Option.bind_eq_bind, Option.bind_some,
        if_pos (hds c List.mem_cons_self), skipAtoi_reads hds hne hend h]
      rfl
    | star =>
      have hread : fmt[spec.fmt]? = some '*'.toUInt8 := h.read
      have hzero : (0 : Int32).toInt = 0 := rfl
      by_cases hneg : args.int spec.taken < 0
      · have hlt : (args.int spec.taken).toInt < 0 := Int32.lt_iff_toInt_lt.mp hneg
        refine ⟨{ spec with
          fmt := spec.fmt + 1, taken := spec.taken + 1, fieldWidth := -args.int spec.taken
          flags := spec.flags ||| Flag.left }, ?_, ?_, fun _ harg => ?_, rfl, h.next⟩
        · rw [getFieldWidth, hread, Option.bind_eq_bind, Option.bind_some, if_neg (by decide),
            if_pos rfl]
          exact if_pos hneg
        · rw [Directive.field]
          dsimp only
          rw [if_pos ⟨rfl, hlt⟩, hflags]
          rfl
        · have hlo := harg rfl
          show (-args.int spec.taken).toInt = |(args.int spec.taken).toInt|
          rw [Int32.toInt_neg, Int.bmod_eq_of_le (by omega) (by omega), abs_of_neg hlt]
      · have hnot : ¬(args.int spec.taken).toInt < 0 :=
          fun hlt => hneg (Int32.lt_iff_toInt_lt.mpr hlt)
        refine ⟨{ spec with
          fmt := spec.fmt + 1, taken := spec.taken + 1, fieldWidth := args.int spec.taken },
          ?_, ?_, fun _ _ => ?_, rfl, h.next⟩
        · rw [getFieldWidth, hread, Option.bind_eq_bind, Option.bind_some, if_neg (by decide),
            if_pos rfl]
          exact if_neg hneg
        · rw [Directive.field]
          dsimp only
          rw [if_neg fun hand => hnot hand.2, hflags]
          rfl
        · exact (abs_of_nonneg (not_lt.mp hnot)).symm

/-- The precision of a directive, where `taken` arguments have been taken for its width, too. -/
theorem getPrecision_reads (args : Args) {spec : Spec}
    (hnone : d.precision = none → NextIs rest fun c => c ≠ '.'.toUInt8)
    (hreads : ∀ amount, d.precision = some amount → AmountReads amount rest) (hne : rest ≠ [])
    (htaken : spec.taken = taken + widthTakes d)
    (h : Ahead fmt spec.fmt (d.precisionSpelling ++ rest)) :
    ∃ spec', getPrecision fmt args spec = some spec' ∧ spec'.flags = spec.flags ∧
      spec'.fieldWidth = spec.fieldWidth ∧
      (d.PrecisionFits → spec'.precision.toInt = (d.field args taken).precision) ∧
      spec'.taken = (d.field args taken).taken ∧ Ahead fmt spec'.fmt rest := by
  obtain ⟨flags, width, precision, qualifier, conversion⟩ := d
  dsimp only at hnone hreads
  have hzero : (0 : Int32).toInt = 0 := rfl
  cases precision with
  | none =>
    obtain ⟨c, rest', rfl, hread⟩ := exists_read (p := spec.fmt) h hne
    refine ⟨{ spec with precision := -1 }, ?_, rfl, rfl, fun _ => rfl, htaken, h⟩
    rw [getPrecision, hread, Option.bind_eq_bind, Option.bind_some,
      if_neg (nextIs_cons.mp (hnone rfl))]
    rfl
  | some amount =>
    have hread : fmt[spec.fmt]? = some '.'.toUInt8 := h.read
    have hnext : Ahead fmt (spec.fmt + 1) ((amount.map Amount.spelling).getD [] ++ rest) := h.next
    have hreads := hreads amount rfl
    rw [getPrecision, hread]
    simp only [Option.bind_eq_bind, Option.bind_some, if_true]
    cases amount with
    | none =>
      obtain ⟨c, rest', rfl, hread'⟩ := exists_read hnext hne
      obtain ⟨hdigit, hstar⟩ := nextIs_cons.mp hreads
      refine ⟨{ spec with fmt := spec.fmt + 1, precision := 0 }, ?_, rfl, rfl, fun _ => rfl,
        htaken, hnext⟩
      rw [getPrecisionValue, hread', Option.bind_eq_bind, Option.bind_some, if_neg hdigit,
        if_neg hstar]
      rfl
    | some amount =>
      cases amount with
      | digits ds =>
        obtain ⟨hne', hds, hend⟩ := hreads
        obtain ⟨c, ds', rfl⟩ := List.exists_cons_of_ne_nil hne'
        have hread' : fmt[spec.fmt + 1]? = some c := hnext.read
        have hvalue : getPrecisionValue fmt args { spec with fmt := spec.fmt + 1 } =
            some { spec with
              fmt := spec.fmt + 1 + (c :: ds').length, precision := atoi (c :: ds') 0 } := by
          rw [getPrecisionValue, hread', Option.bind_eq_bind, Option.bind_some,
            if_pos (hds c List.mem_cons_self), skipAtoi_reads hds hne hend hnext]
          rfl
        rw [hvalue]
        refine ⟨_, rfl, ?_, ?_, fun hfits => ?_, ?_, ?_⟩
        · split <;> rfl
        · split <;> rfl
        · have hatoi := atoi_value hds (hfits _ rfl _ rfl)
          have hnonneg : (0 : Int) ≤ (Amount.digits (c :: ds')).value 0 := Int.natCast_nonneg _
          have hnot : ¬atoi (c :: ds') 0 < 0 := by
            rw [Int32.lt_iff_toInt_lt, hatoi, hzero]
            omega
          rw [if_neg hnot]
          exact hatoi.trans (max_eq_right hnonneg).symm
        · split <;> exact htaken
        · split <;> exact hnext.skip
      | star =>
        have hread' : fmt[spec.fmt + 1]? = some '*'.toUInt8 := hnext.read
        have harg : args.int spec.taken = args.int (taken + widthTakes
            ⟨flags, width, some (some .star), qualifier, conversion⟩) := by rw [htaken]
        have hvalue : getPrecisionValue fmt args { spec with fmt := spec.fmt + 1 } =
            some { spec with
              fmt := spec.fmt + 2, taken := spec.taken + 1, precision := args.int spec.taken } := by
          rw [getPrecisionValue, hread']
          rfl
        have hbehind : spec.taken + 1 = taken + widthTakes
            ⟨flags, width, some (some .star), qualifier, conversion⟩ + 1 := by rw [htaken]
        rw [hvalue]
        by_cases hneg : args.int spec.taken < 0
        · have hlt : (args.int spec.taken).toInt < 0 := Int32.lt_iff_toInt_lt.mp hneg
          refine ⟨{ spec with fmt := spec.fmt + 2, taken := spec.taken + 1, precision := 0 },
            congrArg some (if_pos hneg), rfl, rfl, fun _ => ?_, hbehind, hnext.next⟩
          rw [harg] at hlt
          exact (max_eq_left hlt.le).symm
        · have hnot : ¬(args.int spec.taken).toInt < 0 :=
            fun hlt => hneg (Int32.lt_iff_toInt_lt.mpr hlt)
          refine ⟨{ spec with
            fmt := spec.fmt + 2, taken := spec.taken + 1, precision := args.int spec.taken },
            congrArg some (if_neg hneg), rfl, rfl, fun _ => ?_, hbehind, hnext.next⟩
          rw [harg] at hnot ⊢
          exact (max_eq_right (not_lt.mp hnot)).symm

/-- `qualifier` behind the scan. -/
def qualifierInt (q : Option UInt8) : Int32 := (q.map charInt).getD (-1)

/-- At most one qualifier is read. -/
theorem getQualifier_reads {spec : Spec}
    (hnone : d.qualifier = none → NextIs rest fun c => c ∉ chars "hlL")
    (hsome : ∀ c, d.qualifier = some c → c ∈ chars "hlL") (hne : rest ≠ [])
    (h : Ahead fmt spec.fmt (d.qualifier.toList ++ rest)) :
    getQualifier fmt spec = some { spec with
      fmt := spec.fmt + d.qualifier.toList.length, qualifier := qualifierInt d.qualifier } := by
  have htable : chars "hlL" = ['h'.toUInt8, 'l'.toUInt8, 'L'.toUInt8] := rfl
  have hmem : ∀ c, c ∈ chars "hlL" ↔ c = 'h'.toUInt8 ∨ c = 'l'.toUInt8 ∨ c = 'L'.toUInt8 := by
    intro c
    rw [htable]
    simp only [List.mem_cons, List.not_mem_nil, or_false]
  cases hq : d.qualifier with
  | none =>
    rw [hq] at h
    obtain ⟨c, rest', rfl, hread⟩ := exists_read (p := spec.fmt) h hne
    have hnot := nextIs_cons.mp (hnone hq)
    rw [hmem] at hnot
    rw [getQualifier, hread, Option.bind_eq_bind, Option.bind_some, if_neg hnot]
    rfl
  | some c =>
    rw [hq] at h
    have hread : fmt[spec.fmt]? = some c := h.read
    rw [getQualifier, hread, Option.bind_eq_bind, Option.bind_some,
      if_pos ((hmem c).mp (hsome c hq))]
    rfl

/-- The variables of the scanner behind a directive, as far as its conversion reads them. -/
structure SpecReads (fmt : List UInt8) (args : Args) (taken : Nat) (d : Directive)
    (rest : List UInt8) (spec : Spec) : Prop where
  flags : spec.flags = (d.field args taken).flags
  fieldWidth : d.Fills → spec.fieldWidth.toInt = (d.field args taken).width
  precision : d.IsString ∨ d.IsNumber → spec.precision.toInt = (d.field args taken).precision
  taken : spec.taken = (d.field args taken).taken
  qualifier : spec.qualifier = qualifierInt d.qualifier
  ahead : Ahead fmt spec.fmt rest

/-- **The scanner reads a directive** up to its conversion. -/
theorem getSpec_reads (hreads : d.Reads rest) (hfits : d.Fits args taken)
    (h : Ahead fmt p (d.spelling ++ rest)) :
    ∃ spec, getSpec fmt args p taken = some spec ∧ SpecReads fmt args taken d rest spec := by
  have hne : rest ≠ [] := by
    rintro rfl
    cases hreads.conversion
  have hne₃ : d.qualifier.toList ++ rest ≠ [] := List.append_ne_nil_of_right_ne_nil _ hne
  have hne₂ := List.append_ne_nil_of_right_ne_nil d.precisionSpelling hne₃
  have hne₁ := List.append_ne_nil_of_right_ne_nil d.widthSpelling hne₂
  have hflags : Ahead fmt (p + 1) (d.flags ++ (d.widthSpelling ++ (d.precisionSpelling ++
      (d.qualifier.toList ++ rest)))) := by
    have hnext : Ahead fmt (p + 1) (d.flags ++ (d.widthSpelling ++ (d.precisionSpelling ++
      d.qualifier.toList)) ++ rest) := h.next
    simpa only [List.append_assoc] using hnext
  obtain ⟨s₁, h₁, hflags₁, hwidth₁, htaken₁, hahead₁⟩ := getFieldWidth_reads
    ⟨p + 1 + d.flags.length, taken, flagBits d, -1, -1, -1⟩ hreads.width hne₂ rfl hflags.skip
  obtain ⟨s₂, h₂, hflags₂, hwidth₂, hprecision₂, htaken₂, hahead₂⟩ := getPrecision_reads args
    hreads.precision_none hreads.precision_some hne₃ htaken₁ hahead₁
  have h₃ := getQualifier_reads hreads.qualifier_none hreads.qualifier_some hne hahead₂
  refine ⟨{ s₂ with
    fmt := s₂.fmt + d.qualifier.toList.length, qualifier := qualifierInt d.qualifier }, ?_,
    ⟨hflags₂.trans hflags₁, fun hfills => (congrArg Int32.toInt hwidth₂).trans
      (hwidth₁ (hfits.width hfills) (hfits.width_arg hfills)),
    fun hreads => hprecision₂ (hfits.precision hreads), htaken₂, rfl, hahead₂.skip⟩⟩
  rw [getSpec, repeatFlags_reads hreads.flags hne₁ hreads.flags_end hflags]
  simp only [Option.bind_eq_bind, Option.bind_some]
  have h₁' : getFieldWidth fmt args ⟨p + 1 + d.flags.length, taken,
      d.flags.foldl (fun flags c => flags ||| flagOf c) 0, -1, -1, -1⟩ = some s₁ := h₁
  rw [h₁']
  simp only [Option.bind_some]
  rw [h₂]
  simp only [Option.bind_some]
  exact h₃

/-! ## Conversions -/

variable {str s : List UInt8} {num : Int64} {base size precision type n bound : Int32}

/-- **`number` prints the text of the number.** -/
theorem number_eq_text (hb : 2 ≤ base.toInt ∧ base.toInt ≤ 36) (hsize : -1 ≤ size.toInt)
    (hprecision : precision.toInt ≤ 2 ^ 31 - 6) :
    number str num base size precision type =
      some (str ++ numberText num base type size.toInt precision.toInt) := by
  have hdigits : (digitText num base type).length ≤ 64 := by
    rw [length_digitText]
    exact Lib.numeralLength_le (by omega) (by decide) magnitude_lt
  have hsign : (signText num type).length ≤ 1 := signText_length_le
  have hspecial : (specialText base type).length ≤ 2 := specialText_length_le
  have hcontent : contentLength num base precision type =
      (signText num type).length + (specialText base type).length +
        max precision.toInt (digitText num base type).length := contentLength_eq
  have hroom : (size.toInt - contentLength num base precision type).toNat =
      (size.toInt - ((signText num type).length + (specialText base type).length +
        (precision.toInt - (digitText num base type).length).toNat +
        (digitText num base type).length : Nat)).toNat := by
    rw [hcontent]
    omega
  by_cases hleft : type &&& Flag.left = 0
  · by_cases hzeropad : type &&& Flag.zeropad = 0
    · rw [number_of_plain hb hleft hzeropad (by omega), hroom]
      simp only [numberText, paddedText, hleft, hzeropad, ne_eq, not_true_eq_false, decide_false,
        Bool.or_self, Bool.and_false, Bool.false_eq_true, if_false, Nat.zero_add]
      rfl
    · rw [number_of_zeropad hb hleft hzeropad (by omega), hroom]
      simp only [numberText, paddedText, hleft, hzeropad, ne_eq, not_true_eq_false,
        not_false_eq_true, decide_false, decide_true, Bool.or_true, Bool.not_false, Bool.and_self,
        Bool.false_eq_true, if_false, if_true]
      rfl
  · rw [number_of_left hb hleft (by omega), hroom]
    simp only [numberText, paddedText, hleft, ne_eq, not_false_eq_true, decide_true, Bool.true_or,
      Bool.not_true, Bool.false_and, Bool.false_eq_true, if_false, if_true, Nat.zero_add]
    rfl

/-- Padding with blanks leaves the counter at zero or below. -/
theorem padBefore_eq (str : List UInt8) (hn : -2 ^ 31 < n.toInt) :
    (padBefore str n).1 = str ++ List.replicate (n.toInt - 1).toNat ' '.toUInt8 ∧
      (padBefore str n).2.toInt = min 0 (n.toInt - 1) := by
  have hone : (1 : Int32).toInt = 1 := rfl
  have hzero : (0 : Int32).toInt = 0 := rfl
  have hhi := n.toInt_lt
  have hpred : (n - 1).toInt = n.toInt - 1 := by
    rw [Int32.toInt_sub, hone, Int.bmod_eq_of_le (by omega) (by omega)]
  fun_induction padBefore with
  | case1 str n h ih =>
    have hpos : 0 < n.toInt - 1 := by
      rw [Int32.lt_iff_toInt_lt, hpred, hzero] at h
      exact h
    have hpred' : (n - 1 - 1).toInt = n.toInt - 2 := by
      rw [Int32.toInt_sub, hone, hpred, Int.bmod_eq_of_le (by omega) (by omega)]
      omega
    obtain ⟨htext, hcount⟩ := ih (by omega) (by omega) (by omega)
    have hsucc : (n.toInt - 1).toNat = (n.toInt - 1 - 1).toNat + 1 := by omega
    rw [htext, hcount, hpred, hsucc, List.replicate_succ, List.append_assoc,
      List.singleton_append]
    exact ⟨rfl, by omega⟩
  | case2 str n h =>
    have hle : n.toInt - 1 ≤ 0 := by
      rw [Int32.lt_iff_toInt_lt, hpred, hzero] at h
      omega
    rw [Int.toNat_of_nonpos hle, List.replicate_zero, List.append_nil, hpred]
    exact ⟨rfl, (min_eq_right hle).symm⟩

/-- **`%c`** -/
theorem convertChar_eq {spec : Spec} (hwidth : -1 ≤ spec.fieldWidth.toInt) :
    convertChar args spec str =
      str ++ filled spec.flags spec.fieldWidth.toInt [(args.word spec.taken).toUInt8] := by
  have hpad : ∀ {str : List UInt8} {n : Int32}, -2 ^ 31 < n.toInt → n.toInt ≤ 0 →
      (padBefore str n).1 = str := by
    intro str n hlo hhi
    rw [(padBefore_eq _ hlo).1, Int.toNat_of_nonpos (by omega), List.replicate_zero,
      List.append_nil]
  rw [convertChar, filled]
  by_cases hleft : spec.flags &&& Flag.left = 0
  · obtain ⟨hbefore, hcount⟩ := padBefore_eq str (n := spec.fieldWidth) (by omega)
    simp only [hleft, ne_eq, not_true_eq_false, if_true, if_false]
    rw [hpad (by omega) (by omega), hbefore]
    simp only [List.length_singleton, Nat.cast_one, List.append_assoc]
  · have hafter := padBefore_eq (str ++ [(args.word spec.taken).toUInt8])
      (n := spec.fieldWidth) (by omega)
    simp only [ne_eq, hleft, not_false_eq_true, if_true, if_false]
    rw [hafter.1]
    simp only [List.length_singleton, Nat.cast_one, List.append_assoc]

/-- The counter behind its loop is not above the bound. -/
theorem padWhile_snd_le (hn : -2 ^ 31 < n.toInt) (hbound : -2 ^ 31 < bound.toInt) :
    (padWhile c bound str n).2.toInt ≤ bound.toInt := by
  have hone : (1 : Int32).toInt = 1 := rfl
  have hhi := n.toInt_lt
  fun_induction padWhile with
  | case1 str n h ih =>
    have hlt : bound.toInt < n.toInt := Int32.lt_iff_toInt_lt.mp h
    have hpred := toInt_pred h
    exact ih (by omega) (by omega)
  | case2 str n h =>
    have hle : n.toInt ≤ bound.toInt := not_lt.mp fun hlt => h (Int32.lt_iff_toInt_lt.mpr hlt)
    rw [Int32.toInt_sub, hone, Int.bmod_eq_of_le (by omega) (by omega)]
    omega

/-- The characters that are copied are the first ones of the string. -/
theorem copyChars_eq {k : Nat} (hk : k ≤ s.length) :
    copyChars k s str = some (str ++ s.take k) := by
  induction k generalizing s str with
  | zero => rw [List.take_zero, List.append_nil, copyChars]
  | succ k ih =>
    obtain ⟨c, s, rfl⟩ := List.exists_cons_of_length_pos (Nat.zero_lt_of_lt hk)
    rw [copyChars, ih (Nat.le_of_succ_le_succ hk), List.take_succ_cons, List.append_assoc,
      List.singleton_append]

/-- `strnlen` stops at the terminator or behind `count` characters. -/
theorem strnlen_eq {count : UInt64} (h : 0 ∈ s ∨ count.toNat ≤ s.length) :
    strnlen s count = some ((s.takeWhile fun c => c ≠ 0).take count.toNat).length := by
  induction s generalizing count with
  | nil =>
    have hzero : count = 0 := by
      apply UInt64.toNat_inj.mp
      obtain h | h := h
      · exact absurd h List.not_mem_nil
      · exact Nat.le_zero.mp h
    rw [strnlen, if_pos hzero, List.takeWhile_nil, List.take_nil, List.length_nil]
  | cons c s ih =>
    rw [strnlen]
    by_cases hcount : count = 0
    · rw [if_pos hcount, hcount]
      rfl
    · have hpos : count.toNat ≠ 0 := fun h => hcount (UInt64.toNat_inj.mp h)
      have hpred : (count - 1).toNat = count.toNat - 1 := by
        have hle : (1 : UInt64) ≤ count :=
          UInt64.le_iff_toNat_le.mpr (Nat.one_le_iff_ne_zero.mpr hpos)
        exact UInt64.toNat_sub_of_le count 1 hle
      rw [if_neg hcount]
      by_cases hc : c = 0
      · rw [if_pos hc, List.takeWhile_cons_of_neg (by simpa using hc), List.take_nil]
        rfl
      · have hrest : 0 ∈ s ∨ (count - 1).toNat ≤ s.length := by
          rw [hpred]
          refine h.imp (fun h => (List.mem_cons.mp h).resolve_left fun h0 => hc h0.symm) fun h => ?_
          rw [List.length_cons] at h
          omega
        have hsplit : count.toNat = count.toNat - 1 + 1 := by omega
        rw [if_neg hc, ih hrest, hpred, List.takeWhile_cons_of_pos (by simpa using hc), hsplit,
          List.take_succ_cons, List.length_cons, Nat.add_sub_cancel]
        rfl

/-- The bytes of a string as far as they are printed are a prefix of it. -/
theorem take_takeWhile_prefix (k : Nat) :
    s.take ((s.takeWhile fun c => c ≠ 0).take k).length = (s.takeWhile fun c => c ≠ 0).take k := by
  have hprefix : (s.takeWhile fun c => c ≠ 0).take k <+: s :=
    (List.take_prefix _ _).trans (List.takeWhile_prefix _)
  exact (List.prefix_iff_eq_take.mp hprefix).symm

/-- The precision as the bound of `strnlen`. -/
theorem toUInt64_precision (hlo : -1 ≤ precision.toInt) :
    precision.toInt64.toUInt64.toNat =
      if precision.toInt < 0 then 2 ^ 64 - 1 else precision.toInt.toNat := by
  have hhi := precision.toInt_lt
  have hval : precision.toInt64.toInt = precision.toInt := Int32.toInt_toInt64 precision
  have hnat : precision.toInt64.toUInt64.toNat = precision.toInt64.toBitVec.toNat := rfl
  have hint : precision.toInt64.toInt = precision.toInt64.toBitVec.toInt := rfl
  rw [hint, BitVec.toInt_eq_toNat_cond] at hval
  rw [hnat]
  have hlt := precision.toInt64.toBitVec.isLt
  split at hval <;> split <;> omega

/-- **`%s`** -/
theorem convertString_eq (str : List UInt8) {spec : Spec} (hwidth : -1 ≤ spec.fieldWidth.toInt)
    (hprecision : -1 ≤ spec.precision.toInt)
    (hends : args.word spec.taken ≠ 0 → 0 ∈ args.string (args.word spec.taken) ∨
      0 ≤ spec.precision.toInt ∧
        spec.precision.toInt ≤ (args.string (args.word spec.taken)).length)
    (hlength : (stringText args (args.word spec.taken) spec.precision.toInt).length < 2 ^ 31) :
    convertString args spec str = some (str ++ filled spec.flags spec.fieldWidth.toInt
      (stringText args (args.word spec.taken) spec.precision.toInt)) := by
  let s := if args.word spec.taken = 0 then chars "<NULL>" ++ [0]
    else args.string (args.word spec.taken)
  have hs : s = if args.word spec.taken = 0 then chars "<NULL>" ++ [0]
    else args.string (args.word spec.taken) := rfl
  have hcount := toUInt64_precision hprecision
  -- what is copied is the text
  have htake : (s.takeWhile fun c => c ≠ 0).take spec.precision.toInt64.toUInt64.toNat =
      stringText args (args.word spec.taken) spec.precision.toInt := by
    have hwhole : (s.takeWhile fun c => c ≠ 0) = if args.word spec.taken = 0 then chars "<NULL>"
        else (args.string (args.word spec.taken)).takeWhile fun c => c ≠ 0 := by
      rw [hs]
      split <;> rfl
    rw [stringText] at hlength ⊢
    rw [hcount, hwhole]
    by_cases hneg : spec.precision.toInt < 0
    · rw [if_pos hneg] at hlength
      rw [if_pos hneg, if_pos hneg]
      exact List.take_of_length_le (by omega)
    · rw [if_neg hneg, if_neg hneg]
  have hread : 0 ∈ s ∨ spec.precision.toInt64.toUInt64.toNat ≤ s.length := by
    rw [hs]
    by_cases hnull : args.word spec.taken = 0
    · rw [if_pos hnull]
      exact Or.inl (List.mem_append_right _ (List.mem_singleton_self 0))
    · rw [if_neg hnull]
      refine (hends hnull).imp id fun h => ?_
      rw [hcount, if_neg (by omega)]
      omega
  generalize htext : stringText args (args.word spec.taken) spec.precision.toInt = text at *
  have hlen : (Int32.ofNat text.length).toInt = text.length := Int32.toInt_ofNat_of_lt hlength
  have hprefix : s.take text.length = text := by
    rw [← htake]
    exact take_takeWhile_prefix _
  have hle : text.length ≤ s.length := by
    rw [← hprefix, List.length_take]
    exact Nat.min_le_right _ _
  have hcopy : ∀ str,
      copyChars (Int32.ofNat text.length).toInt.toNat s str = some (str ++ text) := by
    intro str
    rw [hlen, Int.toNat_natCast, copyChars_eq hle, hprefix]
  have hspaces : ∀ str : List UInt8,
      (padWhile ' '.toUInt8 (Int32.ofNat text.length) str spec.fieldWidth).1 =
      str ++ List.replicate (spec.fieldWidth.toInt - text.length).toNat ' '.toUInt8 := by
    intro str
    rw [padWhile_fst, hlen]
  have hbehind : ∀ str front : List UInt8, (padWhile ' '.toUInt8 (Int32.ofNat text.length) str
      (padWhile ' '.toUInt8 (Int32.ofNat text.length) front spec.fieldWidth).2).1 = str := by
    intro str front
    have hcounter : (padWhile ' '.toUInt8 (Int32.ofNat text.length) front
        spec.fieldWidth).2.toInt ≤ (Int32.ofNat text.length).toInt :=
      padWhile_snd_le (by omega) (by omega)
    rw [padWhile_fst, Int.toNat_of_nonpos (by omega), List.replicate_zero, List.append_nil]
  rw [convertString, ← hs, strnlen_eq hread, htake]
  simp only [Option.bind_eq_bind, Option.bind_some, filled]
  by_cases hleft : spec.flags &&& Flag.left = 0
  · simp only [hleft, ne_eq, not_true_eq_false, if_true, if_false, hcopy, hspaces, hbehind,
      Option.bind_some, List.append_assoc]
    rfl
  · simp only [hleft, ne_eq, not_false_eq_true, if_true, if_false, hcopy, hspaces,
      Option.bind_some, List.append_assoc]
    rfl

/-- Characters are compared as integers. -/
theorem charInt_inj {c c' : UInt8} : charInt c = charInt c' ↔ c = c' := by
  constructor
  · intro h
    have hlt := c.toNat_lt
    have hlt' := c'.toNat_lt
    have hc : (charInt c).toInt = c.toNat := Int32.toInt_ofNat_of_lt (by omega)
    have hc' : (charInt c').toInt = c'.toNat := Int32.toInt_ofNat_of_lt (by omega)
    apply UInt8.toNat_inj.mp
    rw [h, hc'] at hc
    omega
  · rintro rfl
    rfl

/-- A qualifier is that of a character if it is this character. -/
theorem qualifierInt_eq {q : Option UInt8} : qualifierInt q = charInt c ↔ q = some c := by
  cases q with
  | none =>
    refine iff_of_false (fun h => ?_) (Option.some_ne_none c).symm
    have hlt := c.toNat_lt
    have hc : (charInt c).toInt = c.toNat := Int32.toInt_ofNat_of_lt (by omega)
    have hnone : (qualifierInt none).toInt = -1 := rfl
    rw [← h, hnone] at hc
    omega
  | some c' => exact charInt_inj.trans Option.some_inj.symm

/-- The argument of an integer conversion, by its qualifier. -/
theorem integerArg_eq {spec : Spec} {q : Option UInt8} (hq : spec.qualifier = qualifierInt q) :
    integerArg args spec flags = integerValue (args.word spec.taken) q flags := by
  simp only [integerArg, integerValue, hq, qualifierInt_eq]

/-- A field without a width has width -1. -/
theorem field_width_ge (args : Args) (taken : Nat) (d : Directive) :
    -1 ≤ (d.field args taken).width := by
  rw [Directive.field]
  dsimp only
  split
  · exact le_rfl
  · exact (by decide : (-1 : Int) ≤ 0).trans (Int.natCast_nonneg _)
  · exact (by decide : (-1 : Int) ≤ 0).trans (abs_nonneg _)

/-- A field without a precision has precision -1. -/
theorem field_precision_ge (args : Args) (taken : Nat) (d : Directive) :
    -1 ≤ (d.field args taken).precision := by
  rw [Directive.field]
  dsimp only
  split
  · exact le_rfl
  · decide
  · exact (by decide : (-1 : Int) ≤ 0).trans (le_max_left _ _)

/-- An integer conversion prints its number. -/
theorem convertInteger_eq {spec : Spec} (hspec : SpecReads fmt args taken d rest spec)
    (hfits : d.Fits args taken) (hd : d.IsNumber) (hb : 2 ≤ base.toInt ∧ base.toInt ≤ 36) :
    convertInteger args spec base flags str =
      some (str ++ numberText
        (integerValue (args.word (d.field args taken).taken) d.qualifier flags)
        base flags (d.field args taken).width (d.field args taken).precision) := by
  have hwidth := field_width_ge args taken d
  have hprecision := hfits.precision_le hd
  have hfieldWidth := hspec.fieldWidth (.inr (.inr hd))
  have hspecPrecision := hspec.precision (.inr hd)
  rw [← hfieldWidth] at hwidth
  rw [← hspecPrecision] at hprecision
  rw [convertInteger, number_eq_text hb hwidth hprecision, integerArg_eq hspec.qualifier,
    hfieldWidth, hspecPrecision, hspec.taken]

/-- A pointer is printed with all its digits unless there is a width. -/
theorem convertPointer_eq {spec : Spec} (hspec : SpecReads fmt args taken d rest spec)
    (hfits : d.Fits args taken) (hd : d.IsNumber) :
    convertPointer args spec str =
      some (str ++ if (d.field args taken).width = -1 then
        numberText (args.word (d.field args taken).taken).toInt64 16
          ((d.field args taken).flags ||| Flag.zeropad) 16 (d.field args taken).precision
      else numberText (args.word (d.field args taken).taken).toInt64 16
          (d.field args taken).flags (d.field args taken).width
          (d.field args taken).precision) := by
  have hwidth := field_width_ge args taken d
  have hprecision := hfits.precision_le hd
  have hfieldWidth := hspec.fieldWidth (.inr (.inr hd))
  have hspecPrecision := hspec.precision (.inr hd)
  have hnone : spec.fieldWidth = -1 ↔ (d.field args taken).width = -1 := by
    rw [← hfieldWidth]
    exact Int32.toInt_inj.symm
  rw [← hfieldWidth] at hwidth
  rw [← hspecPrecision] at hprecision
  rw [convertPointer]
  by_cases h : (d.field args taken).width = -1
  · rw [if_pos (hnone.mpr h), if_pos h, number_eq_text (by decide) (by decide) hprecision,
      hspecPrecision, hspec.taken, hspec.flags]
    rfl
  · rw [if_neg (mt hnone.mp h), if_neg h, number_eq_text (by decide) hwidth hprecision,
      hfieldWidth, hspecPrecision, hspec.taken, hspec.flags]

/-- **A conversion prints what the directive stands for.**  The terminator is not passed: one step
back, and the step of the main loop. -/
theorem convert_prints {spec : Spec} {r : Rendering} (hreads : d.Reads rest)
    (hspec : SpecReads fmt args r.taken d rest spec) (hfits : d.Fits args r.taken) :
    convert fmt args spec r.str r.stores = some
      ⟨if d.conversion = 0 then spec.fmt - 1 else spec.fmt, (d.print args r).taken,
        (d.print args r).str, (d.print args r).stores⟩ := by
  have hread : fmt[spec.fmt]? = some d.conversion := hspec.ahead.read_head.trans hreads.conversion
  have hwidth := field_width_ge args r.taken d
  have hprecision := field_precision_ge args r.taken d
  rw [convert, hread, Option.bind_eq_bind, Option.bind_some, Directive.print]
  by_cases hc : d.conversion = 'c'.toUInt8
  · have hfieldWidth := hspec.fieldWidth (.inl hc)
    simp only [hc]
    rw [convertChar_eq (hwidth.trans_eq hfieldWidth.symm), hfieldWidth, hspec.flags, hspec.taken]
    rfl
  by_cases hs : d.conversion = 's'.toUInt8
  · have hfieldWidth := hspec.fieldWidth (.inr (.inl hs))
    have hspecPrecision := hspec.precision (.inl hs)
    have hends := hfits.string_ends hs
    have hlength := hfits.string_length hs
    rw [Directive.StringEnds, ← hspec.taken, ← hspecPrecision] at hends
    rw [← hspec.taken, ← hspecPrecision] at hlength
    have htext := convertString_eq r.str (hwidth.trans_eq hfieldWidth.symm)
      (hprecision.trans_eq hspecPrecision.symm) hends hlength
    simp only [hs]
    rw [htext, hfieldWidth, hspec.flags, hspecPrecision, hspec.taken]
    rfl
  have htaken := hspec.taken
  by_cases hp : d.conversion = 'p'.toUInt8
  · simp only [hp]
    rw [convertPointer_eq hspec hfits (.inl hp), htaken]
    by_cases hnone : (d.field args r.taken).width = -1
    · rw [if_pos hnone, if_pos hnone]
      rfl
    · rw [if_neg hnone, if_neg hnone]
      rfl
  by_cases hn : d.conversion = 'n'.toUInt8
  · have hq : spec.qualifier = charInt 'l'.toUInt8 ↔ d.qualifier = some 'l'.toUInt8 := by
      rw [hspec.qualifier]
      exact qualifierInt_eq
    simp only [hn, convertCount, hq, htaken]
    rfl
  by_cases hpercent : d.conversion = '%'.toUInt8
  · simp only [hpercent, htaken]
    rfl
  simp only [if_neg hc, if_neg hs, if_neg hp, if_neg hn, if_neg hpercent]
  by_cases hd : d.IsNumber
  · have hinteger : ∀ base flags : Int32, 2 ≤ base.toInt ∧ base.toInt ≤ 36 →
        (convertInteger args spec base flags r.str).map
          (fun str => (⟨spec.fmt, spec.taken + 1, str, r.stores⟩ : Printer)) =
        some ⟨spec.fmt, (d.field args r.taken).taken + 1, r.str ++ numberText
          (integerValue (args.word (d.field args r.taken).taken) d.qualifier flags) base flags
          (d.field args r.taken).width (d.field args r.taken).precision, r.stores⟩ := by
      intro base flags hb
      rw [convertInteger_eq hspec hfits hd hb, htaken]
      rfl
    have hflags : spec.flags = (d.field args r.taken).flags ||| 0 :=
      hspec.flags.trans Int32.or_zero.symm
    rw [hinteger 8 _ (by decide), hinteger 16 _ (by decide), hinteger 16 _ (by decide),
      hinteger 10 _ (by decide), hinteger 10 _ (by decide)]
    by_cases ho : d.conversion = 'o'.toUInt8
    · simp only [ho, hflags]
      rfl
    by_cases hX : d.conversion = 'X'.toUInt8
    · simp only [hX, hspec.flags]
      rfl
    by_cases hx : d.conversion = 'x'.toUInt8
    · simp only [hx, hflags]
      rfl
    by_cases hdi : d.conversion = 'd'.toUInt8 ∨ d.conversion = 'i'.toUInt8
    · obtain hdi | hdi := hdi
      · simp only [hdi, hspec.flags]
        rfl
      · simp only [hdi, hspec.flags]
        rfl
    have hu : d.conversion = 'u'.toUInt8 := by
      by_contra hu
      obtain hd | hd := hd
      · exact hp hd
      · rw [integerBase, if_neg ho, if_neg hX, if_neg hx, if_neg hdi, if_neg hu] at hd
        cases hd
    simp only [hu, hflags]
    rfl
  · -- no conversion at all
    have hbase : integerBase d.conversion = none := by
      by_contra hsome
      exact hd (.inr (Option.isSome_iff_ne_none.mpr hsome))
    have hnot : ∀ c, (integerBase c).isSome → d.conversion ≠ c := by
      rintro c hsome rfl
      rw [hbase] at hsome
      cases hsome
    have hdi : ¬(d.conversion = 'd'.toUInt8 ∨ d.conversion = 'i'.toUInt8) :=
      not_or.mpr ⟨hnot _ rfl, hnot _ rfl⟩
    rw [hbase, if_neg (hnot _ rfl), if_neg (hnot _ rfl), if_neg (hnot _ rfl), if_neg hdi,
      if_neg (hnot _ rfl), htaken]
    by_cases hzero : d.conversion = 0
    · simp only [hzero]
      rfl
    · simp only [hzero, ne_eq, not_false_eq_true, if_true, if_false, List.append_assoc]
      rfl

/-! ## The main loop -/

variable {text : List UInt8} {ps : List FormatPiece} {r : Rendering} {q : Nat}

/-- The variables of the main loop, at the position `q`. -/
def printerAt (r : Rendering) (q : Nat) : Printer := ⟨q, r.taken, r.str, r.stores⟩

/-- A directive, and the step of the main loop. -/
theorem formatLoop_directive (hreads : d.Reads rest) (hfits : d.Fits args r.taken)
    (h : Ahead fmt p (d.spelling ++ rest)) :
    ∃ q, Ahead fmt q rest ∧ 0 < q ∧ ∀ fuel, formatLoop fmt args (fuel + 1) (printerAt r p) =
      formatLoop fmt args fuel
        (printerAt (d.print args r) (if d.conversion = 0 then q else q + 1)) := by
  obtain ⟨spec, hspec, hread⟩ := getSpec_reads hreads hfits h
  have hpercent : fmt[p]? = some '%'.toUInt8 := h.read
  have hpos : 0 < spec.fmt := by
    rw [Nat.pos_iff_ne_zero]
    intro hzero
    have hahead := hread.ahead
    rw [hzero, Ahead, List.drop_zero] at hahead
    have hlength := congrArg List.length h
    rw [List.length_drop, hahead, List.length_append, Directive.spelling, List.length_cons]
      at hlength
    omega
  refine ⟨spec.fmt, hread.ahead, hpos, fun fuel => ?_⟩
  have hround : formatRound fmt args '%'.toUInt8 (printerAt r p) =
      some ⟨if d.conversion = 0 then spec.fmt - 1 else spec.fmt, (d.print args r).taken,
        (d.print args r).str, (d.print args r).stores⟩ := by
    rw [formatRound, if_neg (by decide)]
    have hspec' : getSpec fmt args (printerAt r p).fmt (printerAt r p).taken = some spec :=
      hspec
    rw [hspec', Option.bind_eq_bind, Option.bind_some]
    exact convert_prints hreads hread hfits
  have hpercent' : fmt[(printerAt r p).fmt]? = some '%'.toUInt8 := hpercent
  rw [formatLoop, hpercent', Option.bind_eq_bind, Option.bind_some, if_neg (by decide), hround,
    Option.bind_eq_bind, Option.bind_some]
  split
  case isTrue => rw [Nat.sub_add_cancel hpos, printerAt]
  case isFalse => rfl

/-- **One round prints one piece.** -/
theorem formatLoop_piece {piece : FormatPiece} (hspells : FormatSpells (piece :: ps) text)
    (hfits : ∀ d, piece = .directive d → d.Fits args r.taken) (h : Ahead fmt p text) :
    ∃ q text', FormatSpells ps text' ∧ Ahead fmt q text' ∧ ∀ fuel,
      formatLoop fmt args (fuel + 1) (printerAt r p) =
        formatLoop fmt args fuel (printerAt (piece.print args r) q) := by
  cases hspells with
  | @text c ps rest hc hpercent hrest =>
    refine ⟨p + 1, rest, hrest, h.next, fun fuel => ?_⟩
    have hread : fmt[(printerAt r p).fmt]? = some c := h.read
    have hround : formatRound fmt args c (printerAt r p) =
        some { printerAt r p with str := r.str ++ [c] } := by
      rw [formatRound, if_pos hpercent]
      rfl
    rw [formatLoop, hread, Option.bind_eq_bind, Option.bind_some, if_neg hc, hround,
      Option.bind_eq_bind, Option.bind_some]
    rfl
  | @directive d ps rest hc hreads hrest =>
    obtain ⟨q, hq, -, hround⟩ := formatLoop_directive hreads (hfits d rfl) h
    refine ⟨q + 1, rest, hrest, hq.next, fun fuel => ?_⟩
    rw [hround, if_neg hc]
    rfl
  | @cut d hreads =>
    have hzero : d.conversion = 0 := (Option.some.inj hreads.conversion).symm
    obtain ⟨q, hq, -, hround⟩ := formatLoop_directive hreads (hfits d rfl) h
    refine ⟨q, [0], .nil, hq, fun fuel => ?_⟩
    rw [hround, if_pos hzero]
    rfl

/-- The rounds of all pieces. -/
theorem formatLoop_pieces (hspells : FormatSpells ps text) (hfits : FormatFits args r ps)
    (h : Ahead fmt p text) :
    ∃ q, Ahead fmt q [0] ∧ ∀ fuel, formatLoop fmt args (fuel + ps.length) (printerAt r p) =
      formatLoop fmt args fuel (printerAt (printAll args ps r) q) := by
  induction ps generalizing r p text with
  | nil =>
    cases hspells
    exact ⟨p, h, fun _ => rfl⟩
  | cons piece ps ih =>
    obtain ⟨q, text', hrest, hq, hround⟩ := formatLoop_piece hspells hfits.1 h
    obtain ⟨q', hq', hrounds⟩ := ih hrest hfits.2 hq
    refine ⟨q', hq', fun fuel => ?_⟩
    rw [List.length_cons, ← Nat.add_assoc, hround, hrounds]
    rfl

/-- A format has more characters than pieces. -/
theorem length_lt_of_formatSpells (h : FormatSpells ps text) : ps.length < text.length := by
  induction h with
  | nil => exact Nat.zero_lt_one
  | text _ _ _ ih => exact Nat.succ_lt_succ ih
  | directive _ _ _ ih =>
    rw [List.length_append, Directive.spelling, List.length_cons, List.length_cons]
    rw [List.length_cons]
    omega
  | cut =>
    rw [List.length_append, Directive.spelling, List.length_cons]
    exact Nat.succ_lt_succ (Nat.zero_lt_of_lt (Nat.lt_add_of_pos_right Nat.zero_lt_one))

/-! ## Every format consists of pieces -/

/-- What is behind characters that are not the terminator has the terminator. -/
theorem zero_mem_of_append {front : List UInt8} (h : (0 : UInt8) ∈ front ++ rest)
    (hfront : ∀ c ∈ front, c ≠ 0) : 0 ∈ rest :=
  (List.mem_append.mp h).resolve_left fun h0 => hfront 0 h0 rfl

/-- Behind the longest prefix of such characters there is another one. -/
theorem nextIs_dropWhile {ok : UInt8 → Bool} :
    NextIs (s.dropWhile ok) fun c => ¬ok c := by
  intro c hc
  have hnot := List.head?_dropWhile_not ok s
  rw [Option.mem_def.mp hc] at hnot
  exact Bool.eq_false_iff.mp hnot

/-- A width or a precision is read off. -/
theorem exists_amountReads (h : 0 ∈ s) : ∃ amount rest,
    s = (Option.map Amount.spelling amount).getD [] ++ rest ∧ AmountReads amount rest ∧
      0 ∈ rest := by
  by_cases hdigits : s.takeWhile isDigit = []
  · have hdrop : s.dropWhile isDigit = s := by
      have hsplit := List.takeWhile_append_dropWhile (p := isDigit) (l := s)
      rwa [hdigits, List.nil_append] at hsplit
    have hnext : NextIs s fun c => ¬isDigit c := by
      rw [← hdrop]
      exact nextIs_dropWhile
    obtain ⟨c, rest, rfl⟩ := List.exists_cons_of_ne_nil (List.ne_nil_of_mem h)
    by_cases hstar : c = '*'.toUInt8
    · refine ⟨some .star, rest, by rw [hstar]; rfl, trivial, ?_⟩
      refine (List.mem_cons.mp h).resolve_left fun h0 => ?_
      rw [← h0] at hstar
      exact absurd hstar (by decide)
    · refine ⟨none, c :: rest, rfl, ?_, h⟩
      exact nextIs_cons.mpr ⟨nextIs_cons.mp hnext, hstar⟩
  · have hall : ∀ c ∈ s.takeWhile isDigit, isDigit c := fun c hc => List.mem_takeWhile_imp hc
    have hsplit : s = s.takeWhile isDigit ++ s.dropWhile isDigit :=
      List.takeWhile_append_dropWhile.symm
    refine ⟨some (.digits (s.takeWhile isDigit)), s.dropWhile isDigit, hsplit,
      ⟨hdigits, hall, nextIs_dropWhile⟩, ?_⟩
    rw [hsplit] at h
    exact zero_mem_of_append h fun c hc => ne_zero_of_isDigit (hall c hc)

/-- A precision is read off. -/
theorem exists_precision (h : 0 ∈ s) : ∃ precision rest,
    (∀ d : Directive, d.precision = precision → s = d.precisionSpelling ++ rest) ∧
      (precision = none → NextIs rest fun c => c ≠ '.'.toUInt8) ∧
      (∀ amount, precision = some amount → AmountReads amount rest) ∧ 0 ∈ rest := by
  obtain ⟨c, s', rfl⟩ := List.exists_cons_of_ne_nil (List.ne_nil_of_mem h)
  by_cases hdot : c = '.'.toUInt8
  · have h' : 0 ∈ s' := by
      refine (List.mem_cons.mp h).resolve_left fun h0 => ?_
      rw [← h0] at hdot
      exact absurd hdot (by decide)
    obtain ⟨amount, rest, hsplit, hreads, hzero⟩ := exists_amountReads h'
    refine ⟨some amount, rest, fun d hd => ?_, fun h => absurd h (Option.some_ne_none _), ?_,
      hzero⟩
    · rw [Directive.precisionSpelling, hd, hdot, hsplit]
      rfl
    · rintro amount' ⟨⟩
      exact hreads
  · refine ⟨none, c :: s', fun d hd => ?_, fun _ => nextIs_cons.mpr hdot, ?_, h⟩
    · rw [Directive.precisionSpelling, hd]
      rfl
    · rintro amount ⟨⟩

/-- A qualifier is read off. -/
theorem exists_qualifier (h : 0 ∈ s) : ∃ (qualifier : Option UInt8) (rest : List UInt8),
    s = qualifier.toList ++ rest ∧
      (qualifier = none → NextIs rest fun c => c ∉ chars "hlL") ∧
      (∀ c, qualifier = some c → c ∈ chars "hlL") ∧ 0 ∈ rest := by
  obtain ⟨c, s', rfl⟩ := List.exists_cons_of_ne_nil (List.ne_nil_of_mem h)
  by_cases hc : c ∈ chars "hlL"
  · refine ⟨some c, s', rfl, fun h => absurd h (Option.some_ne_none c), ?_, ?_⟩
    · rintro c' ⟨⟩
      exact hc
    · refine (List.mem_cons.mp h).resolve_left fun h0 => ?_
      rw [← h0] at hc
      exact absurd hc (by decide)
  · refine ⟨none, c :: s', rfl, fun _ => nextIs_cons.mpr hc, ?_, h⟩
    rintro c' ⟨⟩

/-- A directive is read off. -/
theorem exists_reads (h : 0 ∈ s) :
    ∃ d rest, '%'.toUInt8 :: s = Directive.spelling d ++ rest ∧ d.Reads rest ∧ 0 ∈ rest := by
  have hsplit : s = (s.takeWhile fun c => flagOf c ≠ 0) ++ s.dropWhile fun c => flagOf c ≠ 0 :=
    List.takeWhile_append_dropWhile.symm
  have hflags : ∀ c ∈ s.takeWhile fun c => flagOf c ≠ 0, flagOf c ≠ 0 := by
    intro c hc
    have htrue := List.mem_takeWhile_imp hc
    exact of_decide_eq_true htrue
  have hend : NextIs (s.dropWhile fun c => flagOf c ≠ 0) fun c => flagOf c = 0 := by
    intro c hc
    have hnot : ¬decide (flagOf c ≠ 0) = true := nextIs_dropWhile c hc
    exact not_not.mp fun h => hnot (decide_eq_true h)
  generalize (s.takeWhile fun c => flagOf c ≠ 0) = flags at *
  generalize (s.dropWhile fun c => flagOf c ≠ 0) = s₁ at *
  rw [hsplit] at h
  have h₁ : 0 ∈ s₁ := zero_mem_of_append h fun c hc => ne_zero_of_flagOf (hflags c hc)
  obtain ⟨width, s₂, hsplit₂, hwidth, h₂⟩ := exists_amountReads h₁
  obtain ⟨precision, s₃, hsplit₃, hnone, hsome, h₃⟩ := exists_precision h₂
  obtain ⟨qualifier, s₄, hsplit₄, hqnone, hqsome, h₄⟩ := exists_qualifier h₃
  obtain ⟨c, s₅, rfl⟩ := List.exists_cons_of_ne_nil (List.ne_nil_of_mem h₄)
  have hprecision := hsplit₃ ⟨flags, width, precision, qualifier, c⟩ rfl
  refine ⟨⟨flags, width, precision, qualifier, c⟩, c :: s₅, ?_, ?_, h₄⟩
  · rw [hsplit, hsplit₂, hprecision, hsplit₄, Directive.spelling]
    simp only [List.cons_append, List.append_assoc]
    rfl
  · rw [hsplit₄] at hprecision hnone hsome
    refine ⟨hflags, ?_, ?_, hnone, hsome, hqnone, hqsome, rfl⟩
    · rw [hsplit₂, hprecision] at hend
      exact hend
    · rw [hprecision] at hwidth
      exact hwidth

/-- What is behind a front part of a terminated text is terminated, too. -/
theorem terminated_suffix {front : List UInt8} (hne : rest ≠ []) (h0 : 0 ∉ text)
    (h : text ++ [0] = front ++ rest) : ∃ text', rest = text' ++ [0] ∧ 0 ∉ text' ∧
      text'.length + front.length = text.length := by
  obtain ⟨text', c, rfl⟩ := (List.eq_nil_or_concat' rest).resolve_left hne
  rw [← List.append_assoc] at h
  obtain ⟨htext, hc⟩ := List.append_inj' h rfl
  refine ⟨text', by rw [List.singleton_inj.mp hc], fun hmem => h0 ?_, ?_⟩
  · rw [htext]
    exact List.mem_append_right _ hmem
  · rw [htext, List.length_append, Nat.add_comm]

/-- **Every format consists of pieces.** -/
theorem exists_formatSpells (h0 : 0 ∉ text) : ∃ ps, FormatSpells ps (text ++ [0]) := by
  induction hn : text.length using Nat.strongRecOn generalizing text with
  | _ n ih =>
    subst hn
    cases text with
    | nil => exact ⟨[], .nil⟩
    | cons c rest =>
      rw [List.mem_cons, not_or] at h0
      by_cases hc : c = '%'.toUInt8
      · subst hc
        obtain ⟨d, behind, hsplit, hreads, hzero⟩ := exists_reads (s := rest ++ [0])
          (List.mem_append_right _ (List.mem_singleton_self 0))
        have hsplit' : '%'.toUInt8 :: rest ++ [0] = d.spelling ++ behind := hsplit
        obtain ⟨text', rfl, h0', hlength⟩ := terminated_suffix (List.ne_nil_of_mem hzero)
          (List.mem_cons.not.mpr (not_or.mpr h0)) hsplit'
        cases text' with
        | nil =>
          rw [hsplit']
          exact ⟨[.directive d], .cut hreads⟩
        | cons e text' =>
          rw [List.mem_cons, not_or] at h0'
          have hconversion : e = d.conversion := Option.some.inj hreads.conversion
          have hshorter : text'.length < ('%'.toUInt8 :: rest).length := by
            rw [← hlength, List.length_cons]
            omega
          obtain ⟨ps, hps⟩ := ih _ hshorter h0'.2 rfl
          subst hconversion
          rw [hsplit']
          exact ⟨.directive d :: ps, .directive (Ne.symm h0'.1) hreads hps⟩
      · obtain ⟨ps, hps⟩ := ih _ (Nat.lt_succ_self _) h0.2 rfl
        exact ⟨.text c :: ps, .text (Ne.symm h0.1) hc hps⟩

/-- What `vsprintf` leaves for the pieces of a format. -/
def printed (args : Args) (ps : List FormatPiece) : Printed :=
  let r := printAll args ps ⟨0, [], []⟩
  ⟨r.str ++ [0], r.stores, Int32.ofNat r.str.length⟩

/-- Enough fuel gives the meaning of the pieces. -/
theorem vsprintf_eq (hspells : FormatSpells ps (text ++ [0]))
    (hfits : FormatFits args ⟨0, [], []⟩ ps) {fuel : Nat} (hfuel : text.length < fuel) :
    vsprintf (text ++ [0]) args fuel = some (printed args ps) := by
  obtain ⟨q, hq, hrounds⟩ := formatLoop_pieces hspells hfits (Ahead.start _)
  have hlength := length_lt_of_formatSpells hspells
  rw [List.length_append, List.length_singleton] at hlength
  obtain ⟨rest, rfl⟩ : ∃ rest, fuel = rest + 1 + ps.length := ⟨fuel - 1 - ps.length, by omega⟩
  have hloop : formatLoop (text ++ [0]) args (rest + 1 + ps.length) ⟨0, 0, [], []⟩ =
      some (printerAt (printAll args ps ⟨0, [], []⟩) q) := by
    have hstart : (⟨0, 0, [], []⟩ : Printer) = printerAt ⟨0, [], []⟩ 0 := rfl
    have hread : (text ++ [0])[(printerAt (printAll args ps ⟨0, [], []⟩) q).fmt]? = some 0 :=
      hq.read
    rw [hstart, hrounds, formatLoop, hread]
    rfl
  rw [vsprintf, hloop]
  rfl

/-- **What `vsprintf` prints**: every format consists of pieces, and as long as the arithmetic
stays in the range of `int`, `vsprintf` prints what they stand for, takes the arguments in order,
writes with `%n` how much has been printed before, and returns how much it has printed. -/
theorem vsprintf_prints (args : Args) (text : List UInt8) (h0 : 0 ∉ text) :
    (∃ ps, FormatSpells ps (text ++ [0])) ∧
    ∀ ps, FormatSpells ps (text ++ [0]) → FormatFits args ⟨0, [], []⟩ ps →
      ∀ fuel, text.length < fuel → vsprintf (text ++ [0]) args fuel = some (printed args ps) :=
  ⟨exists_formatSpells h0, fun _ hspells hfits _ hfuel => vsprintf_eq hspells hfits hfuel⟩

/-- The pieces of `"[%5d]"`. -/
def bracketedPieces : List FormatPiece :=
  [.text '['.toUInt8, .directive ⟨[], some (.digits ['5'.toUInt8]), none, none, 'd'.toUInt8⟩,
    .text ']'.toUInt8]

/-- `"[%5d]"` spells its pieces. -/
theorem bracketed_spells : FormatSpells bracketedPieces (chars "[%5d]" ++ [0]) := by
  refine .text (by decide) (by decide) (.directive (d := ⟨[], some (.digits ['5'.toUInt8]), none,
    none, 'd'.toUInt8⟩) (by decide) ?_ (.text (by decide) (by decide) .nil))
  exact
    { flags := fun _ h => absurd h List.not_mem_nil
      flags_end := nextIs_cons.mpr (by decide)
      width := ⟨by decide, List.forall_mem_singleton.mpr (by decide),
        nextIs_cons.mpr (by decide)⟩
      precision_none := fun _ => nextIs_cons.mpr (by decide)
      precision_some := fun _ h => absurd h (Option.some_ne_none _).symm
      qualifier_none := fun _ => nextIs_cons.mpr (by decide)
      qualifier_some := fun _ h => absurd h (Option.some_ne_none _).symm
      conversion := rfl }

/-- The pieces of `"[%5d]"` fit for every argument. -/
theorem bracketed_fits (args : Args) : FormatFits args ⟨0, [], []⟩ bracketedPieces := by
  refine ⟨fun d h => ?_, fun d h => ?_, fun d h => ?_, trivial⟩
  · cases h
  · cases h
    exact
      { width := by
          rintro - ds ⟨⟩
          decide
        width_arg := by
          rintro - ⟨⟩
        precision := by
          rintro - amount ⟨⟩
        precision_le := fun _ => by
          show (-1 : Int) ≤ 2 ^ 31 - 6
          decide
        string_ends := fun h => absurd h (by decide)
        string_length := fun h => absurd h (by decide) }
  · cases h

/-- There is no string in it. -/
theorem bracketed_strings (args : Args) : StringsFit args ⟨0, [], []⟩ bracketedPieces := by
  refine ⟨fun d h => ?_, fun d h => ?_, fun d h => ?_, trivial⟩
  · cases h
  · cases h
    exact fun h => absurd h (by decide)
  · cases h

/-- A number in a field. -/
theorem vsprintf_prints_bracketed :
    vsprintf (chars "[%5d]" ++ [0]) ⟨fun _ => 42, fun _ => []⟩ 6 =
      some ⟨chars "[   42]" ++ [0], [], 7⟩ := by
  have hprints := (vsprintf_prints ⟨fun _ => 42, fun _ => []⟩ (chars "[%5d]") (by decide)).2
    bracketedPieces bracketed_spells (bracketed_fits _) 6 (by decide)
  rw [hprints]
  decide

end Eos.Analysis
