import Mathlib.Data.List.OfFn
import Mathlib.Logic.ExistsUnique

/-!
# Bit layouts

A block of bytes is divided into fields of fixed widths. A layout gives every bit of every
field its place in the block, and every place back to the bit it belongs to. A block is then
worth as much as its fields: reading them loses nothing, and any fields can be written.
-/
namespace Eider.Lib

/-- A block of `n` bytes. -/
abbrev ByteBlock (n : Nat) := Fin n → BitVec 8

/-- The bits, the lowest first. -/
def ofBits {w : Nat} (f : Fin w → Bool) : BitVec w :=
  (BitVec.ofBoolListLE (List.ofFn f)).cast List.length_ofFn

theorem getLsb_ofBits {w : Nat} (f : Fin w → Bool) (k : Fin w) : (ofBits f).getLsb k = f k := by
  change (ofBits f).getLsbD k = f k
  rw [ofBits, BitVec.getLsbD_cast, BitVec.getLsbD_ofBoolListLE, List.getD_eq_getElem?_getD]
  simp

/-- The places of the bits of fields, in a block of `n` bytes. -/
structure BitLayout (n : Nat) (ι : Type) (width : ι → Nat) where
  place : (i : ι) → Fin (width i) → Fin n × Fin 8
  owner : Fin n × Fin 8 → (i : ι) × Fin (width i)
  owner_place : ∀ i k, owner (place i k) = ⟨i, k⟩
  place_owner : ∀ p, place (owner p).1 (owner p).2 = p

namespace BitLayout
variable {n : Nat} {ι : Type} {width : ι → Nat} (layout : BitLayout n ι width) (block : ByteBlock n)

/-- The fields of a block. -/
def read (i : ι) : BitVec (width i) :=
  ofBits fun k => (block (layout.place i k).1).getLsb (layout.place i k).2

variable (fields : (i : ι) → BitVec (width i))

/-- The block with given fields. -/
def write : ByteBlock n := fun b =>
  ofBits fun k => (fields (layout.owner (b, k)).1).getLsb (layout.owner (b, k)).2

theorem getLsb_read (i : ι) (k : Fin (width i)) : (layout.read block i).getLsb k =
      (block (layout.place i k).1).getLsb (layout.place i k).2 :=
  getLsb_ofBits _ k

theorem getLsb_write (b : Fin n) (k : Fin 8) : (layout.write fields b).getLsb k =
      (fields (layout.owner (b, k)).1).getLsb (layout.owner (b, k)).2 :=
  getLsb_ofBits _ k

theorem existsUnique_bit (p : Fin n × Fin 8) :
    ∃! f : (i : ι) × Fin (width i), layout.place f.1 f.2 = p := by
  refine ⟨layout.owner p, layout.place_owner p, ?_⟩
  rintro ⟨i, k⟩ rfl
  exact (layout.owner_place i k).symm

theorem read_write : layout.read (layout.write fields) = fields := by
  funext i
  apply BitVec.eq_of_getLsbD_eq
  intro k hk
  have hbit := layout.getLsb_read (layout.write fields) i ⟨k, hk⟩
  rw [layout.getLsb_write, layout.owner_place] at hbit
  exact hbit

theorem write_read : layout.write (layout.read block) = block := by
  funext b
  apply BitVec.eq_of_getLsbD_eq
  intro k hk
  have hbit := layout.getLsb_write (layout.read block) b ⟨k, hk⟩
  rw [layout.getLsb_read, layout.place_owner] at hbit
  exact hbit

theorem read_injective {block block' : ByteBlock n} (h : layout.read block = layout.read block') :
    block = block' := by
  rw [← layout.write_read block, h, layout.write_read]

end BitLayout

end Eider.Lib
