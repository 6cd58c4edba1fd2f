import SharedSlab.Proofs.UserWrites

set_option autoImplicit false

namespace SharedSlab.Slab

namespace Pool

/-- Byte `x` is part of the bitmap of a page of kind small. -/
def InBitmap (p : Pool) (m : Memory) (x : Nat) : Prop :=
  ∃ i < p.pageCount, (table m (p.page i)).kind = .small ∧ p.dataOf i ≤ x ∧
    x < p.dataOf i + 8 * p.config.words (recordedShift (table m (p.page i)).slab)

/-- What stays of `m` in `m'`. -/
structure Keeps (p : Pool) (live live' : List Block) (m m' : Memory) : Prop where
  header : ∀ h : HeaderWord, h ≠ .freePages → m'.word h.index = m.word h.index
  user : ∀ b ∈ live, b ∈ live' →
    ∀ x, b.off ≤ x → x < b.off + p.chunkSize b.size → m'.byte x = m.byte x
  /-- From the first page on, nothing is written but bitmaps that are there before or after. -/
  payload : ∀ x, p.start ≤ x → m'.byte x ≠ m.byte x → p.InBitmap m x ∨ p.InBitmap m' x

theorem Keeps.of_subset {p : Pool} {live live' : List Block} {m m' : Memory}
    (h : p.Keeps live live' m m') (hsub : live ⊆ live') : p.Keeps live live m m' :=
  ⟨h.header, fun b hb _ => h.user b hb (hsub hb), h.payload⟩

end Pool

variable {p : Pool} {a a' : Ledger} {live live' : List Block} {m m' : Memory} {s : Arena} {x : Nat}

namespace Follows

theorem inBitmap (f : Follows p a live m) (hp : p.Placed) (h : a.IsBitmap p (x / 8)) :
    p.InBitmap m x := by
  obtain ⟨i, hi, shift, taken, huse, small, k, hk, hword⟩ := h
  have hkind : (table m (p.page i)).kind = .small := by
    rw [(f.stores.encodes.pages i hi).kind, huse]
    exact Config.kindFor_small small
  obtain ⟨shift', taken', huse', _, hshift⟩ := f.use_of_kind_small hi hkind
  cases huse.symm.trans huse'
  rw [hp.div_eq_bitmapIndex_iff] at hword
  refine ⟨i, hi, hkind, by omega, ?_⟩
  rw [hshift]
  omega

theorem keeps (f : Follows p a live m) (f' : Follows p a' live' m') (hp : p.Placed)
    (framed : p.Framed a a' m m') : p.Keeps live live' m m' where
  header h hne := by
    exact framed.word_of_lt hp (HeaderWord.index_lt hne)
  user b hb hb' x low high := by
    obtain ⟨hlow, hold⟩ := f.word_of_owned hp ⟨b, hb, low, high⟩
    obtain ⟨_, hnew⟩ := f'.word_of_owned hp ⟨b, hb', low, high⟩
    exact Memory.byte_congr (framed.words (x / 8) (.inr hlow) hold hnew)
  payload x hx hne := by
    by_contra hnot
    rw [not_or] at hnot
    exact hne (Memory.byte_congr (framed.words (x / 8) (.inr (hp.table_le_div hx))
      (fun h => hnot.1 (f.inBitmap hp h)) fun h => hnot.2 (f'.inBitmap hp h)))

theorem call_keeps (f : Follows p a live s.memory) (hp : p.Placed) (c : Call) :
    ∃ answer u, p.call c s = .ok answer u ∧
      p.Keeps live (track c answer live) s.memory u.memory := by
  obtain ⟨u, run, f', framed⟩ := f.call hp c
  exact ⟨_, u, run, f.keeps f' hp framed⟩

end Follows

end SharedSlab.Slab
