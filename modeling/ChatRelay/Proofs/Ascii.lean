import ChatRelay.Number.Decimal
import ChatRelay.Text.Utf8

/-!
# ASCII texts

What the library writes itself -- numerals, names, escapes -- is ASCII, and so it is UTF-8
(`Ascii.valid`); and it holds no control byte (`Printable`). A numeral of a natural number reads
back as that number, so different numbers have different numerals (`ofNat_injective`).
-/

namespace ChatRelay

namespace Bytes

/-- Every byte is ASCII. -/
def Ascii (s : Bytes) : Prop :=
  ∀ b ∈ s, b < 0x80

instance (s : Bytes) : Decidable (Ascii s) :=
  List.decidableBAll (· < 0x80) s

variable {s t : Bytes} {b : UInt8}

/-- **ASCII is UTF-8.** -/
theorem Ascii.valid (hs : Ascii s) : Utf8.valid s = true := by
  have hrun : Utf8.run .start s = some .start := by
    induction s with
    | nil => rfl
    | cons b s ih =>
      obtain ⟨hb, hs⟩ := List.forall_mem_cons.mp hs
      have hle : b ≤ 0x7F := by
        rw [UInt8.lt_iff_toNat_lt] at hb
        rw [UInt8.le_iff_toNat_le]
        exact Nat.le_of_lt_succ hb
      rw [Utf8.run, Utf8.step, Utf8.first, if_pos hle, Option.bind_some]
      exact ih hs
  rw [Utf8.valid, hrun]
  rfl

/-- Every byte is ASCII, and none is below the blank. -/
def Printable (s : Bytes) : Prop :=
  ∀ b ∈ s, 0x20 ≤ b ∧ b < 0x80

instance (s : Bytes) : Decidable (Printable s) :=
  List.decidableBAll (fun b => 0x20 ≤ b ∧ b < 0x80) s

theorem Printable.ascii (hs : Printable s) : Ascii s :=
  fun b hb => (hs b hb).2

theorem Printable.cons (hb : 0x20 ≤ b ∧ b < 0x80) (hs : Printable s) : Printable (b :: s) :=
  List.forall_mem_cons.mpr ⟨hb, hs⟩

theorem Printable.append (hs : Printable s) (ht : Printable t) : Printable (s ++ t) :=
  List.forall_mem_append.mpr ⟨hs, ht⟩

theorem Printable.of_subset (ht : Printable t) (h : ∀ b ∈ s, b ∈ t) : Printable s :=
  fun b hb => ht b (h b hb)

/-! ## 1. Numerals -/

theorem toNat_digit {n : Nat} (h : n < 10) : (digit n).toNat = 0x30 + n := by
  rw [digit, Nat.toUInt8, UInt8.toNat_ofNat']
  omega

/-- A byte between the bounds, by its number. -/
theorem printable_singleton (hlow : 0x20 ≤ b.toNat) (hhigh : b.toNat < 0x80) : Printable [b] :=
  List.forall_mem_singleton.mpr
    ⟨UInt8.le_iff_toNat_le.mpr hlow, UInt8.lt_iff_toNat_lt.mpr hhigh⟩

theorem printable_digit {n : Nat} (h : n < 10) : Printable [digit n] := by
  have hn := toNat_digit h
  exact printable_singleton (by omega) (by omega)

theorem printable_ofNat (n : Nat) : Printable (ofNat n) := by
  fun_induction ofNat n with
  | case1 n h => exact printable_digit h
  | case2 n h ih => exact ih.append (printable_digit (Nat.mod_lt n (by decide)))

theorem printable_ofInt (n : Int) : Printable (ofInt n) := by
  unfold ofInt
  split
  · exact Printable.cons (by decide) (printable_ofNat _)
  · exact printable_ofNat _

theorem printable_hexDigit {n : Nat} (h : n < 16) : Printable [hexDigit n] := by
  unfold hexDigit
  split
  · rename_i hn
    exact printable_digit hn
  · have hn : ((0x57 + n).toUInt8).toNat = 0x57 + n := by
      rw [Nat.toUInt8, UInt8.toNat_ofNat']
      omega
    exact printable_singleton (by omega) (by omega)

theorem printable_hex (width n : Nat) : Printable (hex width n) := by
  induction width generalizing n with
  | zero => exact List.forall_mem_nil _
  | succ width ih =>
    exact (ih (n / 16)).append (printable_hexDigit (Nat.mod_lt n (by decide)))

/-- **A numeral reads back** as the number that it was made from. -/
theorem natOfDigits_ofNat (n : Nat) : natOfDigits (ofNat n) = n := by
  fun_induction ofNat n with
  | case1 n h =>
    show 0 * 10 + ((digit n).toNat - 0x30) = n
    rw [toNat_digit h]
    omega
  | case2 n h ih =>
    rw [natOfDigits, List.foldl_append]
    show natOfDigits (ofNat (n / 10)) * 10 + ((digit (n % 10)).toNat - 0x30) = n
    rw [ih, toNat_digit (Nat.mod_lt n (by decide))]
    omega

theorem ofNat_injective {m n : Nat} (h : ofNat m = ofNat n) : m = n := by
  rw [← natOfDigits_ofNat m, h, natOfDigits_ofNat]

end Bytes

/-! ## 2. Doubles -/

namespace Binary64

open Bytes

theorem printable_renderExponent (e : Int) : Printable (renderExponent e) := by
  unfold renderExponent
  have hdigits := printable_ofNat e.natAbs
  refine Printable.append ?_ ?_
  · split
    · decide
    · decide
  · split
    · exact Printable.cons (by decide) hdigits
    · exact hdigits

theorem printable_replicate (n : Nat) : Printable (List.replicate n 0x30) := by
  intro b hb
  rw [List.eq_of_mem_replicate hb]
  decide

theorem printable_layOut {digits : Bytes} (hd : Printable digits) (point : Int) :
    Printable (layOut digits point) := by
  have hzeros := printable_replicate
  unfold layOut
  dsimp only
  split
  · exact (hd.append (hzeros _)).append (by decide)
  · split
    · refine (hd.of_subset fun _ => List.mem_of_mem_take).append (Printable.cons (by decide) ?_)
      exact hd.of_subset fun _ => List.mem_of_mem_drop
    · split
      · exact (Printable.append (by decide) (hzeros _)).append hd
      · split
        · exact List.forall_mem_nil _
        · obtain ⟨hb, hrest⟩ := List.forall_mem_cons.mp hd
          refine Printable.append ?_ (Printable.cons (by decide) (printable_renderExponent _))
          split
          · exact Printable.cons hb (List.forall_mem_nil _)
          · exact Printable.cons hb (Printable.cons (by decide) hrest)

/-- **The text of a double is printable.** -/
theorem printable_render (x : Binary64) : Printable x.render := by
  have hsign : Printable (if x.negative = true then [0x2D] else []) := by
    split
    · decide
    · decide
  unfold render
  dsimp only
  split
  · exact hsign.append (by decide)
  · exact hsign.append (printable_layOut (printable_ofNat _) _)

end Binary64

end ChatRelay
