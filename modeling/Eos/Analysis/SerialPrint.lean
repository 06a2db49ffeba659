import Eos.Interface.NumberText
import Eos.Interface.SerialText
import Eos.Analysis.FormatScan
import Eos.Lib.Scan

/-!
# Output over the serial line

`uart_put_dec` and `uart_put_hex` print numerals that are read back, and the second one stays
within its buffer for widths up to 32 only (`uartPut_readBack`).  `_os_serial_printf` prints what
the pieces of its format stand for; a `%` at the very end takes it behind the terminator
(`serialPrintf_output`).
-/

set_option autoImplicit false

namespace Eos.Analysis

open Eos.Lib (readNumeral numeral numeralLength numeralDigits writeDigits writeDigits_eq
  length_numeral readNumeral_numeral readNumeral_replicate numeralLength_le
  numeralLength_of_ne_zero Ahead)
open Eos.Model
open Eos.Interface

/-! ## Numbers -/

/-- The characters of the digit table read back as their digits. -/
theorem digitValue_serialDigit : ∀ d < 16, digitValue (serialDigit d) = some d := by decide

/-- The digits are put in the opposite order. -/
theorem putDigits_all (buf : List UInt8) : putDigits buf buf.length [] = some buf.reverse := by
  rw [putDigits_eq le_rfl, List.take_length, List.nil_append]

/-- Zero is the only 64-bit number with value 0. -/
theorem toNat_eq_zero {val : UInt64} : val.toNat = 0 ↔ val = 0 :=
  ⟨fun h => UInt64.toNat_inj.mp h, congrArg UInt64.toNat⟩

/-- The loop of `uart_put_hex` writes the digits of base 16, the last one first. -/
theorem hexLoop_eq {room : Nat} {val : UInt64} {buf : List UInt8} :
    hexLoop room val buf = some (writeDigits serialDigit 16 room val.toNat buf) := by
  induction room generalizing val buf with
  | zero => rfl
  | succ room ih =>
    rw [hexLoop, writeDigits]
    by_cases hval : val = 0
    · rw [if_pos hval, if_pos (toNat_eq_zero.mpr hval)]
    · have hrem : (val &&& 0xF).toNat = val.toNat % 16 := by
        rw [UInt64.toNat_and]
        exact Nat.and_two_pow_sub_one_eq_mod val.toNat 4
      have hdiv : (val >>> 4).toNat = val.toNat / 16 := by
        rw [UInt64.toNat_shiftRight]
        exact Nat.shiftRight_eq_div_pow val.toNat 4
      have hdigit : ∀ d < 16, (chars "0123456789ABCDEF" ++ [0])[d]? = some (serialDigit d) := by
        decide
      rw [if_neg hval, if_neg (mt toNat_eq_zero.mp hval), hrem,
        hdigit _ (Nat.mod_lt _ (by decide)), Option.bind_eq_bind, Option.bind_some, ih, hdiv]

/-- The loop that pads appends zeros up to the width. -/
theorem padHex_eq {width : UInt32} {buf : List UInt8} (hfits : width.toNat ≤ bufSize) :
    padHex width buf = some (buf ++ List.replicate (width.toNat - buf.length) '0'.toUInt8) := by
  fun_induction padHex with
  | case1 buf hlt hroom ih =>
    have hone : width.toNat - buf.length = width.toNat - (buf.length + 1) + 1 := by omega
    rw [ih, List.length_append, List.length_singleton, hone, List.replicate_succ,
      List.append_assoc, List.singleton_append]
  | case2 buf hlt hroom => exact absurd (hlt.trans_le hfits) hroom
  | case3 buf hlt =>
    rw [Nat.sub_eq_zero_of_le (Nat.not_lt.mp hlt), List.replicate_zero, List.append_nil]

/-- A width that `buf` has no room for leads behind its end. -/
theorem padHex_none {width : UInt32} {buf : List UInt8} (hwidth : bufSize < width.toNat)
    (hbuf : buf.length ≤ bufSize) : padHex width buf = none := by
  fun_induction padHex with
  | case1 buf hlt hroom ih =>
    apply ih
    rw [List.length_append, List.length_singleton]
    exact hroom
  | case2 buf hlt hroom => rfl
  | case3 buf hlt => exact absurd (hbuf.trans_lt hwidth) hlt

/-- The loop gets to the end of every number. -/
theorem hexLoop_digits {val : UInt64} (hval : val ≠ 0) :
    hexLoop 16 val [] = some (numeral serialDigit 16 val.toNat).reverse := by
  have hlength : (Nat.digits 16 val.toNat).length ≤ 16 := by
    rw [Nat.digits_length_le_iff (by decide)]
    exact val.toNat_lt
  rw [hexLoop_eq, writeDigits_eq (by decide) hlength, List.nil_append, numeral,
    List.reverse_reverse, numeralDigits, if_neg (mt toNat_eq_zero.mp hval)]

/-- A 64-bit number has at most 16 hexadecimal digits. -/
theorem length_hex_le (val : UInt64) : (numeral serialDigit 16 val.toNat).length ≤ 16 := by
  rw [length_numeral, numeralLength]
  apply max_le (by decide)
  rw [Nat.digits_length_le_iff (by decide)]
  exact val.toNat_lt

/-- A width within the buffer gives the text of the number. -/
theorem uartPutHex_eq {val : UInt64} {width : UInt32} (hfits : width.toNat ≤ bufSize) :
    uartPutHex val width = some (hexText val.toNat width.toNat) := by
  rw [uartPutHex, hexText]
  by_cases hval : val = 0
  · rw [if_pos hval, if_pos (toNat_eq_zero.mpr hval)]
  · rw [if_neg hval, if_neg (mt toNat_eq_zero.mp hval), hexLoop_digits hval, Option.bind_eq_bind,
      Option.bind_some, padHex_eq hfits, Option.bind_some, putDigits_all,
      List.reverse_append, List.reverse_reverse, List.reverse_replicate, List.length_reverse]

/-- A larger width leads behind the end of the buffer. -/
theorem uartPutHex_none {val : UInt64} {width : UInt32} (hval : val ≠ 0)
    (hwidth : bufSize < width.toNat) : uartPutHex val width = none := by
  have hbuf : (numeral serialDigit 16 val.toNat).reverse.length ≤ bufSize := by
    rw [List.length_reverse]
    exact (length_hex_le val).trans (by decide)
  rw [uartPutHex, if_neg hval, hexLoop_digits hval, Option.bind_eq_bind, Option.bind_some,
    padHex_none hwidth hbuf]
  rfl

/-- The loop of `uart_put_dec` writes the digits of base 10, the last one first. -/
theorem decLoop_eq {room : Nat} {val : UInt64} {buf : List UInt8} :
    decLoop room val buf = writeDigits serialDigit 10 room val.toNat buf := by
  induction room generalizing val buf with
  | zero => rfl
  | succ room ih =>
    rw [decLoop, writeDigits]
    by_cases hval : val = 0
    · rw [if_pos hval, if_pos (toNat_eq_zero.mpr hval)]
    · have hdigit : ∀ d < 10, UInt8.ofNat d + '0'.toUInt8 = serialDigit d := by decide
      have hrem : (val % 10).toUInt8 = UInt8.ofNat (val.toNat % 10) := by
        apply UInt8.toNat_inj.mp
        rw [UInt64.toNat_toUInt8, UInt64.toNat_mod, UInt8.toNat_ofNat']
        rfl
      have hdiv : (val / 10).toNat = val.toNat / 10 := UInt64.toNat_div val 10
      rw [if_neg hval, if_neg (mt toNat_eq_zero.mp hval), hrem, hdigit _ (Nat.mod_lt _ (by decide)),
        ih, hdiv]

/-- A 64-bit number has at most 20 decimal digits. -/
theorem uartPutDec_eq (val : UInt64) :
    uartPutDec val = some (numeral serialDigit 10 val.toNat) := by
  rw [uartPutDec]
  by_cases hval : val = 0
  · subst hval
    rfl
  · have hlength : (Nat.digits 10 val.toNat).length ≤ 20 := by
      rw [Nat.digits_length_le_iff (by decide)]
      exact val.toNat_lt.trans (by decide)
    rw [if_neg hval]
    dsimp only
    rw [putDigits_all, decLoop_eq, writeDigits_eq (by decide) hlength, List.nil_append, numeral,
      numeralDigits, if_neg (mt toNat_eq_zero.mp hval)]

/-- The text of a number is read back as the number. -/
theorem readNumeral_hexText (val width : Nat) :
    readNumeral digitValue 16 (hexText val width) = some val := by
  rw [hexText]
  split
  case isTrue h =>
    rw [h]
    decide
  case isFalse =>
    rw [readNumeral_replicate (by decide) (by decide),
      readNumeral_numeral (by decide) digitValue_serialDigit]

/-- The text fills the width, or has one digit for 0. -/
theorem length_hexText (val width : Nat) :
    (hexText val width).length = if val = 0 then 1 else max width (numeralLength 16 val) := by
  rw [hexText]
  split
  case isTrue => rfl
  case isFalse =>
    rw [List.length_append, List.length_replicate, length_numeral]
    omega

/-- **Numbers are read back**: `uart_put_dec` prints the decimal numeral of every number;
`uart_put_hex` stays within its buffer if and only if the number is 0 or the width is at most 32,
and then prints a hexadecimal numeral of the number, which fills the width unless it is 0. -/
theorem uartPut_readBack (val : UInt64) (width : UInt32) :
    (∃ out, uartPutDec val = some out ∧ readNumeral digitValue 10 out = some val.toNat ∧
      out.length = numeralLength 10 val.toNat) ∧
    ((∃ out, uartPutHex val width = some out) ↔ val = 0 ∨ width.toNat ≤ bufSize) ∧
    ∀ out, uartPutHex val width = some out → readNumeral digitValue 16 out = some val.toNat ∧
      out.length = if val = 0 then 1 else max width.toNat (numeralLength 16 val.toNat) := by
  have hzero : val = 0 → uartPutHex val width = some (hexText val.toNat width.toNat) := by
    rintro rfl
    rfl
  have htable : ∀ d < 10, digitValue (serialDigit d) = some d :=
    fun d hd => digitValue_serialDigit d (by omega)
  refine ⟨⟨_, uartPutDec_eq val, readNumeral_numeral (by decide) htable,
    length_numeral serialDigit⟩, ⟨?_, ?_⟩, ?_⟩
  · rintro ⟨out, hout⟩
    by_contra hnot
    rw [not_or, Nat.not_le] at hnot
    rw [uartPutHex_none hnot.1 hnot.2] at hout
    cases hout
  · rintro (h | h)
    · exact ⟨_, hzero h⟩
    · exact ⟨_, uartPutHex_eq h⟩
  · intro out hout
    have heq : out = hexText val.toNat width.toNat := by
      by_cases hval : val = 0
      · exact Option.some.inj (hout.symm.trans (hzero hval))
      · by_cases hfits : width.toNat ≤ bufSize
        · exact Option.some.inj (hout.symm.trans (uartPutHex_eq hfits))
        · rw [uartPutHex_none hval (Nat.not_le.mp hfits)] at hout
          cases hout
    rw [heq]
    refine ⟨readNumeral_hexText _ _, ?_⟩
    rw [length_hexText]
    simp only [toNat_eq_zero]

/-- The most digits that `%lx` prints. -/
theorem uartPut_readBack_max :
    ∃ out, uartPutHex 0xFFFFFFFFFFFFFFFF 16 = some out ∧
      readNumeral digitValue 16 out = some (0xFFFFFFFFFFFFFFFF : UInt64).toNat := by
  obtain ⟨-, hiff, hread⟩ := uartPut_readBack 0xFFFFFFFFFFFFFFFF 16
  obtain ⟨out, hout⟩ := hiff.mpr (Or.inr (by decide))
  exact ⟨out, hout, (hread out hout).1⟩

/-! ## Strings -/

/-- A terminated string is printed up to its terminator. -/
theorem putsLoop_eq {s : List UInt8} (h : 0 ∈ s) :
    putsLoop s = some (s.takeWhile fun c => c ≠ 0) := by
  induction s with
  | nil => exact absurd h List.not_mem_nil
  | cons c s ih =>
    rw [putsLoop]
    by_cases hc : c = 0
    · rw [if_pos hc, List.takeWhile_cons_of_neg (by simpa using hc)]
    · have hs : 0 ∈ s := (List.mem_cons.mp h).resolve_left fun h0 => hc h0.symm
      rw [if_neg hc, ih hs, List.takeWhile_cons_of_pos (by simpa using hc)]
      rfl

/-- Without a terminator, the loop reads behind the end of the string. -/
theorem putsLoop_none {s : List UInt8} (h : 0 ∉ s) : putsLoop s = none := by
  induction s with
  | nil => rfl
  | cons c s ih =>
    rw [List.mem_cons, not_or] at h
    rw [putsLoop, if_neg (Ne.symm h.1), ih h.2]
    rfl

variable {args : Args} {fmt rest text tail : List UInt8} {taken : Nat} {c : UInt8}
  {p : SerialPiece} {ps : List SerialPiece} {s : SerialPrinter}

/-- A terminated string argument is printed. -/
theorem serialString_eq (h : args.word taken ≠ 0 → 0 ∈ args.string (args.word taken)) :
    serialString args taken = some ((SerialPiece.conversion 's'.toUInt8).output args
      (args.word taken)) := by
  rw [serialString, earlyUartPuts]
  by_cases hnull : args.word taken = 0
  · rw [hnull]
    rfl
  · rw [if_neg hnull, putsLoop_eq (h hnull), SerialPiece.output, if_pos rfl, if_neg hnull]

/-- A string argument that does not end leads behind the end of the string. -/
theorem serialString_none (hnull : args.word taken ≠ 0)
    (h : 0 ∉ args.string (args.word taken)) : serialString args taken = none := by
  rw [serialString, earlyUartPuts]
  simp only [if_neg hnull]
  exact putsLoop_none h

/-! ## `_os_serial_printf` -/

/-- **A conversion prints what it stands for.** -/
theorem serialConversion_eq (hahead : Ahead fmt s.fmt (c :: rest)) (hc : c ≠ 0)
    (hlong : c = 'l'.toUInt8 → rest ≠ [] ∧ rest.head? ≠ some 'x'.toUInt8)
    (hends : (SerialPiece.conversion c).StringEnds args (args.word s.taken)) :
    serialConversion fmt args s = some ⟨s.fmt, s.taken + (SerialPiece.conversion c).takes,
      s.out ++ (SerialPiece.conversion c).output args (args.word s.taken)⟩ := by
  have hread : fmt[s.fmt]? = some c := hahead.read
  have hnext : fmt[s.fmt + 1]? = rest.head? := hahead.next.read_head
  rw [serialConversion, hread, Option.bind_eq_bind, Option.bind_some]
  by_cases hs : c = 's'.toUInt8
  · subst hs
    rw [if_pos rfl, serialString_eq (hends rfl)]
    rfl
  by_cases hchar : c = 'c'.toUInt8
  · subst hchar
    rfl
  by_cases hdec : c = 'd'.toUInt8 ∨ c = 'u'.toUInt8
  · have htakes : (SerialPiece.conversion c).takes = 1 := by
      obtain rfl | rfl := hdec <;> rfl
    simp only [if_neg hs, if_neg hchar, if_pos hdec, uartPutDec_eq, htakes, SerialPiece.output]
    rfl
  by_cases hhex : c = 'x'.toUInt8 ∨ c = 'X'.toUInt8
  · have htakes : (SerialPiece.conversion c).takes = 1 := by
      obtain rfl | rfl := hhex <;> rfl
    have hfits : (0 : UInt32).toNat ≤ bufSize := by decide
    simp only [if_neg hs, if_neg hchar, if_neg hdec, if_pos hhex, uartPutHex_eq hfits, htakes,
      SerialPiece.output]
    rfl
  have htable : chars "scduxX" = ['s'.toUInt8, 'c'.toUInt8, 'd'.toUInt8, 'u'.toUInt8, 'x'.toUInt8,
    'X'.toUInt8] := rfl
  rw [not_or] at hdec hhex
  have htakes : (SerialPiece.conversion c).takes = 0 := by
    simp [SerialPiece.takes, serialTakes, htable, hs, hchar, hdec, hhex]
  simp only [if_neg hs, if_neg hchar, hdec, hhex, or_self, if_false, htakes, SerialPiece.output,
    Nat.add_zero]
  by_cases hl : c = 'l'.toUInt8
  · obtain ⟨hne, hx⟩ := hlong hl
    obtain ⟨d, rest, rfl⟩ := List.exists_cons_of_ne_nil hne
    have hd : d ≠ 'x'.toUInt8 := fun h => hx (congrArg some h)
    rw [if_pos hl, if_pos hl, hnext, List.head?_cons, Option.bind_eq_bind, Option.bind_some,
      if_neg hd, List.append_nil]
    rfl
  · rw [if_neg hl, if_neg hl]
    split <;> rfl

/-- A character that is neither `%` nor the terminator. -/
theorem serialLoop_text (hread : fmt[s.fmt]? = some c) (hc : c ≠ 0) (hpercent : c ≠ '%'.toUInt8)
    (fuel : Nat) : serialLoop fmt args (fuel + 1) s =
      serialLoop fmt args fuel { s with fmt := s.fmt + 1, out := s.out ++ [c] } := by
  rw [serialLoop, hread, Option.bind_eq_bind, Option.bind_some, if_neg hc, if_pos hpercent]

/-- A conversion, and the step of the main loop. -/
theorem serialLoop_percent {s' : SerialPrinter} (hread : fmt[s.fmt]? = some '%'.toUInt8)
    (h : serialConversion fmt args { s with fmt := s.fmt + 1 } = some s') (fuel : Nat) :
    serialLoop fmt args (fuel + 1) s =
      serialLoop fmt args fuel { s' with fmt := s'.fmt + 1 } := by
  rw [serialLoop, hread, Option.bind_eq_bind, Option.bind_some, if_neg (by decide),
    if_neg (by decide), h, Option.bind_eq_bind, Option.bind_some]

/-- **One round prints one piece.** -/
theorem serialLoop_piece (hspells : SerialSpells tail (p :: ps) text)
    (hahead : Ahead fmt s.fmt (text ++ [0])) (hends : p.StringEnds args (args.word s.taken)) :
    ∃ q text', SerialSpells tail ps text' ∧ Ahead fmt q (text' ++ [0]) ∧
      ∀ fuel, serialLoop fmt args (fuel + 1) s = serialLoop fmt args fuel
        ⟨q, s.taken + p.takes, s.out ++ p.output args (args.word s.taken)⟩ := by
  cases hspells with
  | text hc hpercent hrest =>
    exact ⟨_, _, hrest, hahead.next, serialLoop_text hahead.read hc hpercent⟩
  | @conversion c ps rest hc hlong hrest =>
    have hnext : rest ++ [0] ≠ [] := List.append_ne_nil_of_right_ne_nil _ (List.cons_ne_nil _ _)
    have hx : c = 'l'.toUInt8 → rest ++ [0] ≠ [] ∧ (rest ++ [0]).head? ≠ some 'x'.toUInt8 := by
      intro hl
      refine ⟨hnext, fun h => hlong hl ?_⟩
      cases rest with
      | nil => exact absurd (Option.some.inj h) (by decide)
      | cons d rest => exact h
    exact ⟨_, _, hrest, hahead.next.next, serialLoop_percent hahead.read
      (serialConversion_eq (s := { s with fmt := s.fmt + 1 }) hahead.next hc hx hends)⟩
  | longHex hrest =>
    have hfits : (16 : UInt32).toNat ≤ bufSize := by decide
    have hconversion : serialConversion fmt args { s with fmt := s.fmt + 1 } =
        some ⟨s.fmt + 2, s.taken + 1, s.out ++ hexText (args.word s.taken).toNat 16⟩ := by
      have hl : fmt[s.fmt + 1]? = some 'l'.toUInt8 := hahead.next.read
      have hx : fmt[s.fmt + 1 + 1]? = some 'x'.toUInt8 := hahead.next.next.read
      rw [serialConversion]
      simp only [hl, hx, Option.bind_eq_bind, Option.bind_some, uartPutHex_eq hfits]
      rfl
    exact ⟨_, _, hrest, hahead.next.next.next, serialLoop_percent hahead.read hconversion⟩

/-- The rounds of all pieces. -/
theorem serialLoop_pieces (hspells : SerialSpells tail ps text)
    (hahead : Ahead fmt s.fmt (text ++ [0])) (hends : SerialStringsEnd args s.taken ps) :
    ∃ q taken, Ahead fmt q (tail ++ [0]) ∧ ∀ fuel, serialLoop fmt args (fuel + ps.length) s =
      serialLoop fmt args fuel ⟨q, taken, s.out ++ serialOutput args s.taken ps⟩ := by
  induction ps generalizing s text with
  | nil =>
    cases hspells
    refine ⟨s.fmt, s.taken, hahead, fun fuel => ?_⟩
    rw [serialOutput, List.append_nil]
    rfl
  | cons p ps ih =>
    obtain ⟨q, text', hrest, hq, hround⟩ := serialLoop_piece hspells hahead hends.1
    obtain ⟨q', taken, hq', hrounds⟩ := ih
      (s := ⟨q, s.taken + p.takes, s.out ++ p.output args (args.word s.taken)⟩) hrest hq hends.2
    refine ⟨q', taken, hq', fun fuel => ?_⟩
    rw [List.length_cons, ← Nat.add_assoc, hround, hrounds, serialOutput, List.append_assoc]

/-- A format has at least as many characters as pieces. -/
theorem length_le_of_spells (h : SerialSpells tail ps text) : ps.length ≤ text.length := by
  induction h with
  | nil => exact Nat.zero_le _
  | text _ _ _ ih => exact Nat.succ_le_succ ih
  | conversion _ _ _ ih => exact Nat.succ_le_succ (ih.trans (Nat.le_succ _))
  | longHex _ ih => exact Nat.succ_le_succ (ih.trans (Nat.le_add_right _ 2))

/-- A format without a cut conversion. -/
theorem osSerialPrintf_eq (hspells : SerialSpells [] ps text) (hends : SerialStringsEnd args 0 ps)
    {fuel : Nat} (hfuel : text.length < fuel) :
    osSerialPrintf (text ++ [0]) args fuel = some (serialOutput args 0 ps) := by
  obtain ⟨q, taken, hq, hrounds⟩ :=
    serialLoop_pieces (s := ⟨0, 0, []⟩) hspells (Ahead.start _) hends
  have hlength := length_le_of_spells hspells
  obtain ⟨rest, rfl⟩ : ∃ rest, fuel = rest + 1 + ps.length := ⟨fuel - 1 - ps.length, by omega⟩
  have hloop : serialLoop (text ++ [0]) args (rest + 1 + ps.length) ⟨0, 0, []⟩ =
      some ⟨q, taken, serialOutput args 0 ps⟩ := by
    rw [hrounds, serialLoop, hq.read]
    rfl
  rw [osSerialPrintf, hloop]
  rfl

/-- Fuel that is too little for the rounds of all pieces gives no result. -/
theorem serialLoop_short {fuel : Nat} (hspells : SerialSpells tail ps text)
    (hahead : Ahead fmt s.fmt (text ++ [0])) (hends : SerialStringsEnd args s.taken ps)
    (hfuel : fuel < ps.length) : serialLoop fmt args fuel s = none := by
  induction ps generalizing s text fuel with
  | nil => exact absurd hfuel (Nat.not_lt_zero _)
  | cons p ps ih =>
    cases fuel with
    | zero => rfl
    | succ fuel =>
      obtain ⟨q, text', hrest, hq, hround⟩ := serialLoop_piece hspells hahead hends.1
      rw [hround]
      exact ih hrest hq hends.2 (Nat.lt_of_succ_lt_succ hfuel)

/-- **A string that does not end**: the rounds before it print their pieces, and then
`early_uart_puts` reads behind its end. -/
theorem serialLoop_unended {fuel : Nat} (hspells : SerialSpells tail ps text)
    (hahead : Ahead fmt s.fmt (text ++ [0])) (hends : ¬SerialStringsEnd args s.taken ps) :
    serialLoop fmt args fuel s = none := by
  induction ps generalizing s text fuel with
  | nil => exact absurd trivial hends
  | cons p ps ih =>
    cases fuel with
    | zero => rfl
    | succ fuel =>
      by_cases hpiece : p.StringEnds args (args.word s.taken)
      · obtain ⟨q, text', hrest, hq, hround⟩ := serialLoop_piece hspells hahead hpiece
        rw [hround]
        exact ih hrest hq fun hrest => hends ⟨hpiece, hrest⟩
      · rw [SerialPiece.StringEnds, not_forall₂] at hpiece
        obtain ⟨rfl, hnull, hstring⟩ := hpiece
        cases hspells
        have hconversion : serialConversion fmt args { s with fmt := s.fmt + 1 } = none := by
          have hread : fmt[s.fmt + 1]? = some 's'.toUInt8 := hahead.next.read
          rw [serialConversion, hread, Option.bind_eq_bind, Option.bind_some, if_pos rfl,
            serialString_none hnull hstring, Option.map_none]
        have hpercent : fmt[s.fmt]? = some '%'.toUInt8 := hahead.read
        rw [serialLoop, hpercent, Option.bind_eq_bind, Option.bind_some, if_neg (by decide),
          if_neg (by decide), hconversion]
        rfl

/-- With such an argument `_os_serial_printf` reads behind the end of the string. -/
theorem osSerialPrintf_unended (hspells : SerialSpells tail ps text)
    (hends : ¬SerialStringsEnd args 0 ps) (fuel : Nat) :
    osSerialPrintf (text ++ [0]) args fuel = none := by
  rw [osSerialPrintf, serialLoop_unended (s := ⟨0, 0, []⟩) hspells (Ahead.start _) hends]
  rfl

/-- **The `%` at the end**: the conversion is the terminator, which the main loop steps behind. -/
theorem osSerialPrintf_cut (hspells : SerialSpells ['%'.toUInt8] ps text)
    (hends : SerialStringsEnd args 0 ps) (fuel : Nat) :
    osSerialPrintf (text ++ [0]) args fuel = none := by
  obtain ⟨q, taken, hq, hrounds⟩ :=
    serialLoop_pieces (s := ⟨0, 0, []⟩) hspells (Ahead.start _) hends
  suffices hnone : serialLoop (text ++ [0]) args fuel ⟨0, 0, []⟩ = none by
    rw [osSerialPrintf, hnone]
    rfl
  by_cases hfuel : fuel < ps.length
  · exact serialLoop_short hspells (Ahead.start _) hends hfuel
  · obtain ⟨rest, rfl⟩ : ∃ rest, fuel = rest + ps.length := ⟨fuel - ps.length, by omega⟩
    rw [hrounds]
    cases rest with
    | zero => rfl
    | succ rest =>
      have hzero : (text ++ [0])[q + 1]? = some 0 := hq.next.read
      have hbehind : (text ++ [0])[q + 1 + 1]? = none := hq.next.next.read_nil
      have hmark : serialConversion (text ++ [0]) args
          ⟨q + 1, taken, [] ++ serialOutput args 0 ps⟩ =
          some ⟨q + 1, taken, [] ++ serialOutput args 0 ps ++ ['?'.toUInt8]⟩ := by
        rw [serialConversion, hzero]
        rfl
      rw [serialLoop_percent hq.read hmark]
      cases rest with
      | zero => rfl
      | succ rest =>
        rw [serialLoop, hbehind]
        rfl

/-- Every format consists of pieces, with a `%` behind them at most. -/
theorem exists_spells (text : List UInt8) (h0 : 0 ∉ text) :
    ∃ ps, SerialSpells [] ps text ∨ SerialSpells ['%'.toUInt8] ps text := by
  induction hn : text.length using Nat.strongRecOn generalizing text with
  | _ n ih =>
    subst hn
    have hshorter : ∀ rest : List UInt8, rest.length < text.length → rest <:+ text →
        ∃ ps, SerialSpells [] ps rest ∨ SerialSpells ['%'.toUInt8] ps rest :=
      fun rest hlt hrest => ih rest.length hlt rest (fun h => h0 (hrest.mem h)) rfl
    cases text with
    | nil => exact ⟨[], Or.inl .nil⟩
    | cons c rest =>
      rw [List.mem_cons, not_or] at h0
      by_cases hc : c = '%'.toUInt8
      · subst hc
        cases rest with
        | nil => exact ⟨[], Or.inr .nil⟩
        | cons d rest =>
          rw [List.mem_cons, not_or] at h0
          by_cases hlong : d = 'l'.toUInt8 ∧ rest.head? = some 'x'.toUInt8
          · obtain ⟨rfl, hx⟩ := hlong
            obtain ⟨rest, rfl⟩ : ∃ rest', rest = 'x'.toUInt8 :: rest' := by
              cases rest with
              | nil => cases hx
              | cons e rest => exact ⟨rest, by rw [Option.some.inj hx]⟩
            obtain ⟨ps, hps⟩ := hshorter rest (by simp; omega) ⟨_ :: _ :: _ :: [], rfl⟩
            exact ⟨.longHex :: ps, hps.imp .longHex .longHex⟩
          · have hl : d = 'l'.toUInt8 → rest.head? ≠ some 'x'.toUInt8 := fun h h' => hlong ⟨h, h'⟩
            obtain ⟨ps, hps⟩ := hshorter rest (by simp) ⟨_ :: _ :: [], rfl⟩
            exact ⟨.conversion d :: ps,
              hps.imp (.conversion (Ne.symm h0.2.1) hl) (.conversion (Ne.symm h0.2.1) hl)⟩
      · obtain ⟨ps, hps⟩ := hshorter rest (Nat.lt_succ_self _) ⟨[c], rfl⟩
        exact ⟨.text c :: ps, hps.imp (.text (Ne.symm h0.1) hc) (.text (Ne.symm h0.1) hc)⟩

/-- **What `_os_serial_printf` prints**: every format is a sequence of pieces, or such a sequence
with a single `%` behind it.  The pieces are printed in order if the strings among them are
terminated; if one is not, or with the `%`, it reads behind the end of a string. -/
theorem serialPrintf_output (args : Args) (text : List UInt8) (h0 : 0 ∉ text) :
    (∃ ps, SerialSpells [] ps text ∨ SerialSpells ['%'.toUInt8] ps text) ∧
    ∀ ps,
      (SerialSpells [] ps text →
        (SerialStringsEnd args 0 ps → ∀ fuel, text.length < fuel →
          osSerialPrintf (text ++ [0]) args fuel = some (serialOutput args 0 ps)) ∧
        (¬SerialStringsEnd args 0 ps → ∀ fuel, osSerialPrintf (text ++ [0]) args fuel = none)) ∧
      (SerialSpells ['%'.toUInt8] ps text → ∀ fuel,
        osSerialPrintf (text ++ [0]) args fuel = none) := by
  refine ⟨exists_spells text h0, fun ps => ⟨fun hps => ⟨fun hends fuel hfuel => ?_, ?_⟩, ?_⟩⟩
  · exact osSerialPrintf_eq hps hends hfuel
  · exact osSerialPrintf_unended hps
  · intro hps fuel
    by_cases hends : SerialStringsEnd args 0 ps
    · exact osSerialPrintf_cut hps hends fuel
    · exact osSerialPrintf_unended hps hends fuel

/-- A format that ends in a single `%`. -/
theorem serialPrintf_output_percent :
    ¬∃ fuel out,
      osSerialPrintf (chars "100%" ++ [0]) ⟨fun _ => 0, fun _ => []⟩ fuel = some out := by
  have hps : SerialSpells ['%'.toUInt8] [.text '1'.toUInt8, .text '0'.toUInt8, .text '0'.toUInt8]
      (chars "100%") :=
    .text (by decide) (by decide) (.text (by decide) (by decide)
      (.text (by decide) (by decide) .nil))
  rintro ⟨fuel, out, hout⟩
  have hnone := ((serialPrintf_output ⟨fun _ => 0, fun _ => []⟩ _ (by decide)).2 _).2 hps fuel
  rw [hnone] at hout
  cases hout

end Eos.Analysis
