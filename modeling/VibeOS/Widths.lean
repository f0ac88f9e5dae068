import Mathlib.Algebra.Order.Ring.Int

/-! The lengths of the tables that more than one part of the system indexes. -/
namespace VibeOS

instance neZero_four : NeZero 4 := ⟨by decide⟩
instance neZero_eight : NeZero 8 := ⟨by decide⟩
instance neZero_sixteen : NeZero 16 := ⟨by decide⟩
instance neZero_registers : NeZero 31 := ⟨by decide⟩
instance neZero_cache : NeZero 32 := ⟨by decide⟩
instance neZero_ring : NeZero 64 := ⟨by decide⟩
instance neZero_entries : NeZero 512 := ⟨by decide⟩
instance neZero_page : NeZero 4096 := ⟨by decide⟩

instance lawfulBEq_chars : LawfulBEq (List Char) := inferInstance

end VibeOS
