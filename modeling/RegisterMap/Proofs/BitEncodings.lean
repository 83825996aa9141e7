import Mathlib.Data.Nat.Bitwise
import RegisterMap.Proofs.Document
import RegisterMap.Proofs.Paths
import RegisterMap.Proofs.ScaledNumerals

/-!
# The three ways to write a bit range

A field tells its bits by the lowest and the highest one, by an offset and a width, or by a text
such as `[7:4]` (`Element.EncodesBits`). The first of these that is complete counts, so the offset
and the text are looked at only where one of the bounds is left out (`Element.Unbounded`). All three
are read as the same range, whatever the notation of the numbers in them, and the mask of this range
has its ones exactly between the two bounds (`bitRange?_of_encodesBits`).
-/

namespace RegisterMap

open Text

variable {lsb msb n : Nat} {s : String}

/-! ### Masks -/

namespace BitRange

theorem testBit_lowBits_shiftLeft {width offset i : Nat} :
    (lowBits width <<< offset).testBit i ↔ offset ≤ i ∧ i < offset + width := by
  have hlow : ∀ j, (lowBits width).testBit j = decide (j < width) :=
    Nat.testBit_two_pow_sub_one width
  rw [Nat.testBit_shiftLeft, hlow, Bool.and_eq_true, decide_eq_true_eq, decide_eq_true_eq]
  omega

/-- The mask of the range between two bits has its ones there and nowhere else. -/
theorem exists_mask_between (ordered : lsb ≤ msb) :
    ∃ mask : Nat, (between lsb msb).mask? = some (mask : Int) ∧
      ∀ i, mask.testBit i ↔ lsb ≤ i ∧ i ≤ msb := by
  have hwidth : ((msb : Int) - lsb + 1).toNat = msb - lsb + 1 := by omega
  refine ⟨lowBits (msb - lsb + 1) <<< lsb, ?_, ?_⟩
  · rw [mask?, if_pos]
    · rw [between, hwidth, Int.toNat_natCast]
      rfl
    · simp only [between]
      omega
  · intro i
    rw [testBit_lowBits_shiftLeft]
    omega

end BitRange

/-! ### Ranges in brackets -/

/-- The text gives the highest and the lowest bit in brackets, with a colon between them. -/
def Brackets (lsb msb : Nat) (s : String) : Prop :=
  ∃ high low : String, Denotes msb high ∧ Denotes lsb low ∧
    Padded ('[' :: (high.toList ++ ':' :: low.toList ++ [']'])) s

theorem pieces_pair {separator : Char} {s t : String} (hs : separator ∉ s.toList)
    (ht : separator ∉ t.toList) :
    pieces separator (String.ofList (s.toList ++ separator :: t.toList)) = [s, t] := by
  have hjoin : [separator].intercalate [s.toList, t.toList] =
      s.toList ++ separator :: t.toList := by
    simp
  rw [← hjoin, pieces_join (List.cons_ne_nil _ _) (by simp [hs, ht])]
  simp

theorem Brackets.bitRangeOfText_eq (h : Brackets lsb msb s) :
    Element.bitRangeOfText s = .ok (.between lsb msb) := by
  obtain ⟨high, low, hhigh, hlow, padded⟩ := h
  have htight : Tight ('[' :: (high.toList ++ ':' :: low.toList ++ [']'])) := by
    constructor
    · exact ⟨'[', rfl, by decide⟩
    · exact Ends.append ⟨']', rfl, by decide⟩ ('[' :: (high.toList ++ ':' :: low.toList))
  have htrim : (trim s).toList = '[' :: (high.toList ++ ':' :: low.toList ++ [']']) := by
    rw [trim, String.toList_ofList, padded.trimChars_eq htight]
  have hinner : ((trim s).toList.drop 1).dropLast = high.toList ++ ':' :: low.toList := by
    rw [htrim, List.drop_one, List.tail_cons, List.dropLast_concat]
  rw [Element.bitRangeOfText, hinner, pieces_pair hhigh.not_mem_colon hlow.not_mem_colon]
  simp only [readNumber_eq_ok hhigh, readNumber_eq_ok hlow]
  rfl

/-! ### Elements -/

namespace Element

/-- The first child element with the tag contains a numeral for the number. -/
def HoldsNumber (e : Element) (tag : String) (n : Nat) : Prop :=
  ∃ c s, e.child? tag = some c ∧ c.text = some s ∧ Denotes n s

/-- The element leaves out its lowest bit or its highest one. -/
inductive Unbounded (e : Element) : Prop
  | noLowest (absent : e.child? "lsb" = none)
  | noHighest {lsb : Nat} (lowest : e.HoldsNumber "lsb" lsb) (absent : e.child? "msb" = none)

/-- The element gives the bits from `lsb` to `msb`, in one of the three ways. -/
inductive EncodesBits (e : Element) (lsb msb : Nat) : Prop
  | bounds (lowest : e.HoldsNumber "lsb" lsb) (highest : e.HoldsNumber "msb" msb)
  | extent (unbounded : e.Unbounded) (offset : e.HoldsNumber "bitOffset" lsb)
      (width : e.HoldsNumber "bitWidth" (msb - lsb + 1))
  | text (unbounded : e.Unbounded) (noOffset : e.child? "bitOffset" = none) {s : String}
      (content : e.string? "bitRange" = some s) (brackets : Brackets lsb msb s)

/-- The bit range of a field that leaves out one of its bounds. -/
def unboundedRange? (e : Element) : Except ReadFault (Option BitRange) := do
  if let some offset ← e.number? "bitOffset" then
    let width ← e.number? "bitWidth"
    return some { offset, width := width.getD 1 }
  match e.string? "bitRange" with
  | some s => ((bitRangeOfText s).map some).mapError .malformed
  | none => return none

variable {e : Element} {tag : String}

theorem HoldsNumber.number?_eq (h : e.HoldsNumber tag n) :
    e.number? tag = .ok (some (n : Int)) := by
  obtain ⟨c, s, child, text, denotes⟩ := h
  rw [number?, child]
  simp only [numberContent, text, readNumber_eq_ok denotes]
  rfl

theorem number?_eq_none (h : e.child? tag = none) : e.number? tag = .ok none := by
  rw [number?, h]

/-- Without one of the bounds, the other two ways to write a range are tried. -/
theorem Unbounded.bitRange?_eq (h : e.Unbounded) : e.bitRange? = e.unboundedRange? := by
  cases h with
  | noLowest absent =>
      rw [bitRange?, number?_eq_none absent]
      rfl
  | noHighest lowest absent =>
      -- The lowest bit is read before the highest one is missed, so it has to be a number.
      rw [bitRange?, lowest.number?_eq, ok_bind]
      simp only [number?_eq_none absent]
      rfl

/-- All ways to write a range are read as the range between its bounds. -/
theorem EncodesBits.bitRange?_eq (ordered : lsb ≤ msb) (h : e.EncodesBits lsb msb) :
    e.bitRange? = .ok (some (.between lsb msb)) := by
  cases h with
  | bounds lowest highest =>
      rw [bitRange?, lowest.number?_eq, ok_bind]
      simp only [highest.number?_eq]
      rfl
  | extent unbounded offset width =>
      have hwidth : ((msb - lsb + 1 : Nat) : Int) = msb - lsb + 1 := by omega
      rw [unbounded.bitRange?_eq, unboundedRange?, offset.number?_eq, ok_bind]
      simp only [width.number?_eq, ok_bind, Option.getD_some, hwidth]
      rfl
  | text unbounded noOffset content brackets =>
      rw [unbounded.bitRange?_eq, unboundedRange?, number?_eq_none noOffset, ok_bind]
      simp only [content, brackets.bitRangeOfText_eq]
      rfl

/-- A field that gives its bits from `lsb` to `msb`, in any of the three ways and in any notation of
the numbers, is read as the range of these bits. The highest bit and the mask of the range are those
of the bits that were given. -/
theorem bitRange?_of_encodesBits (ordered : lsb ≤ msb) (h : e.EncodesBits lsb msb) :
    ∃ r, e.bitRange? = .ok (some r) ∧ r.offset = lsb ∧ r.width = msb - lsb + 1 ∧ r.msb = msb ∧
      ∃ mask : Nat, r.mask? = some (mask : Int) ∧ ∀ i, mask.testBit i ↔ lsb ≤ i ∧ i ≤ msb :=
  ⟨.between lsb msb, h.bitRange?_eq ordered, rfl, rfl, BitRange.msb_between lsb msb,
    BitRange.exists_mask_between ordered⟩

/-- A field in the bits from 4 to 13, given by its bounds. -/
def tenBitsByBounds : Element :=
  node "field" [leaf "lsb" "#0100", leaf "msb" " 0X0d "]

/-- A field in the same bits, given by its offset and width. -/
def tenBitsByExtent : Element :=
  node "field" [leaf "bitOffset" "04", leaf "bitWidth" "10"]

/-- A field in the same bits, given by a text. -/
def tenBitsInBrackets : Element :=
  node "field" [leaf "bitRange" " [ 0X0d :04]"]

theorem bitRange?_of_encodesBits_tenBits :
    4 ≤ 13 ∧ ∀ e ∈ [tenBitsByBounds, tenBitsByExtent, tenBitsInBrackets], e.EncodesBits 4 13 ∧
      ∃ r, e.bitRange? = .ok (some r) ∧ r.offset = 4 ∧ r.width = 13 - 4 + 1 ∧ r.msb = 13 ∧
        ∃ mask : Nat, r.mask? = some (mask : Int) ∧ ∀ i, mask.testBit i ↔ 4 ≤ i ∧ i ≤ 13 := by
  have none : ∀ c ∈ [], isBlank c := List.forall_mem_nil _
  have one : ∀ c ∈ [' '], isBlank c := List.forall_mem_singleton.2 rfl
  have hbinary : Denotes 4 "#0100" :=
    ⟨_, .binary (.intro [0, 1, 0, 0] (List.cons_ne_nil '0' ['1', '0', '0']) (by simp [AsciiDigit])
      rfl), .intro [] [] rfl none none⟩
  have hhexadecimal : Denotes 13 " 0X0d " :=
    ⟨_, .hexadecimal (.inr rfl) (.intro [0, 13] (List.cons_ne_nil '0' ['d']) (by simp [AsciiDigit])
      rfl), .intro [' '] [' '] rfl one one⟩
  have hoctal : Denotes 4 "04" :=
    ⟨_, .octal (.intro [4] (List.cons_ne_nil '4' []) (by simp [AsciiDigit]) rfl),
      .intro [] [] rfl none none⟩
  have hdecimal : Denotes 10 "10" :=
    ⟨_, .decimal (.intro [1, 0] (List.cons_ne_nil '1' ['0']) (by simp [AsciiDigit]) rfl) nofun,
      .intro [] [] rfl none none⟩
  have hbounds : tenBitsByBounds.EncodesBits 4 13 :=
    .bounds ⟨_, _, rfl, rfl, hbinary⟩ ⟨_, _, rfl, rfl, hhexadecimal⟩
  have hextent : tenBitsByExtent.EncodesBits 4 13 :=
    .extent (.noLowest rfl) ⟨_, _, rfl, rfl, hoctal⟩ ⟨_, _, rfl, rfl, hdecimal⟩
  have hbrackets : tenBitsInBrackets.EncodesBits 4 13 :=
    .text (.noLowest rfl) rfl rfl
      ⟨_, _, hhexadecimal, hoctal, .intro [' '] [] rfl one none⟩
  have ordered : 4 ≤ 13 := by decide
  refine ⟨ordered, ?_⟩
  simp only [List.forall_mem_cons]
  exact ⟨⟨hbounds, bitRange?_of_encodesBits ordered hbounds⟩,
    ⟨hextent, bitRange?_of_encodesBits ordered hextent⟩,
    ⟨hbrackets, bitRange?_of_encodesBits ordered hbrackets⟩, List.forall_mem_nil _⟩

end Element

end RegisterMap
