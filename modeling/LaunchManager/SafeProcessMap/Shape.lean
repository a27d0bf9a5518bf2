import Mathlib.Data.Finmap
import Mathlib.Data.List.Range
import LaunchManager.SafeProcessMap

/-!
# The shape of the array

In every state that the calls can reach, the links from the root spell out a
tree in which the bits of the identifiers lead to their cells, and the links
from the head of the free list spell out the cells that are left. Cells are
handed out in ascending order or recycled, and there are only `2 ^ 31`
identifiers that are not negative, so that no index is ever mistaken for one of
the two special values, whatever the capacity.
-/

namespace LaunchManager.SafeProcessMap

open List

set_option autoImplicit false

universe u
variable {C : Type u}

/-- The links of a cell; the left link is that of the keys whose bit is set. -/
def link (M : SafeProcessMap C) (b : Bool) (i : Nat) : Nat :=
  if b then (M.items i).pidLeft else (M.items i).pidRight

def pidAt (M : SafeProcessMap C) (i : Nat) : ProcessID := (M.items i).pid

def dataAt (M : SafeProcessMap C) (i : Nat) : ProcessInfoData C := (M.items i).data

def contentAt (M : SafeProcessMap C) (i : Nat) : ProcessID × ProcessInfoData C :=
  (M.pidAt i, M.dataAt i)

/-- The free cells: those that were used before, then those that never were. -/
def freeCells (capacity : Nat) (recycled : List Nat) (fresh : Nat) : List Nat :=
  recycled ++ List.range' fresh (capacity - fresh)

/-- `refs` and `recycled` are the cells below `fresh`. -/
structure Cells (capacity : Nat) (refs recycled : List Nat) (fresh : Nat) : Prop where
  perm : (refs ++ recycled).Perm (List.range fresh)
  fresh_le : fresh ≤ capacity
  fresh_low : fresh ≤ 2 ^ 31
  bounded : capacity ≤ NULL_INDEX

structure Shape (M : SafeProcessMap C) (t : RefTree Nat) (recycled : List Nat) (fresh : Nat) :
    Prop where
  linked : t.Linked NULL_INDEX M.link
  root : M.treeRoot = t.root NULL_INDEX
  placed : t.Placed M.pidAt BitVec.getLsbD (fun _ => True) 0
  keys : (t.refs.map M.pidAt).Nodup
  signed : ∀ i ∈ t.refs, (M.pidAt i).msb = false
  cells : Cells M.capacity t.refs recycled fresh
  free : (freeCells M.capacity recycled fresh).LinkedBy NULL_INDEX (M.link false)
  head : M.freeListHead = (freeCells M.capacity recycled fresh).headD NULL_INDEX

section Cells
variable {capacity fresh : Nat} {refs recycled : List Nat}
variable {i : Nat}

theorem Cells.mem_lt (h : Cells capacity refs recycled fresh) (hi : i ∈ refs) : i < fresh :=
  mem_range.mp (h.perm.mem_iff.mp (mem_append_left _ hi))

theorem Cells.nodup (h : Cells capacity refs recycled fresh) : refs.Nodup :=
  (nodup_append'.mp (h.perm.nodup_iff.mpr nodup_range)).1

theorem Cells.free_lt (h : Cells capacity refs recycled fresh)
    (hi : i ∈ freeCells capacity recycled fresh) : i < capacity := by
  rcases mem_append.mp hi with hi | hi
  · exact (mem_range.mp (h.perm.mem_iff.mp (mem_append_right _ hi))).trans_le h.fresh_le
  · have := mem_range'_1.mp hi
    omega

theorem Cells.not_mem (h : Cells capacity refs recycled fresh)
    (hi : i ∈ freeCells capacity recycled fresh) : i ∉ refs := by
  intro hmem
  rcases mem_append.mp hi with hi | hi
  · have hdis := (nodup_append'.mp (h.perm.nodup_iff.mpr nodup_range)).2.2
    exact hdis hmem hi
  · have := mem_range'_1.mp hi
    have := h.mem_lt hmem
    omega

theorem Cells.mem_free (h : Cells capacity refs recycled fresh) (hi : i < capacity)
    (hnot : i ∉ refs) : i ∈ freeCells capacity recycled fresh := by
  rcases Nat.lt_or_ge i fresh with hlt | hge
  · have hmem := h.perm.mem_iff.mpr (mem_range.mpr hlt)
    exact mem_append_left _ ((mem_append.mp hmem).resolve_left hnot)
  · exact mem_append_right _ (mem_range'_1.mpr (by omega))

theorem Cells.free_nodup (h : Cells capacity refs recycled fresh) :
    (freeCells capacity recycled fresh).Nodup := by
  have hnd := h.perm.nodup_iff.mpr nodup_range
  refine nodup_append'.mpr ⟨(nodup_append'.mp hnd).2.1, nodup_range', ?_⟩
  intro i hi hi'
  have hlt := mem_range.mp (h.perm.mem_iff.mp (mem_append_right _ hi))
  have hge := mem_range'_1.mp hi'
  omega

theorem Cells.length (h : Cells capacity refs recycled fresh) :
    refs.length + (freeCells capacity recycled fresh).length = capacity := by
  have hlen := h.perm.length_eq
  have := h.fresh_le
  simp only [length_append, length_range, freeCells, length_range'] at hlen ⊢
  omega

theorem Cells.full_iff (h : Cells capacity refs recycled fresh) :
    (freeCells capacity recycled fresh).headD NULL_INDEX = NULL_INDEX ↔
      refs.length = capacity := by
  have hlen := h.length
  cases hfree : freeCells capacity recycled fresh with
  | nil =>
    rw [hfree] at hlen
    exact ⟨fun _ => hlen, fun _ => rfl⟩
  | cons i is =>
    have hi := h.free_lt (hfree ▸ mem_cons_self : i ∈ freeCells capacity recycled fresh)
    have := h.bounded
    rw [hfree, length_cons] at hlen
    simp only [headD_cons]
    omega

theorem Cells.take (h : Cells capacity refs recycled fresh) {j : Nat} {js : List Nat}
    (hfree : freeCells capacity recycled fresh = j :: js) :
    ∃ recycled' fresh', js = freeCells capacity recycled' fresh' ∧
      (j :: refs ++ recycled').Perm (List.range fresh') ∧ fresh' ≤ capacity ∧
      (fresh' ≤ 2 ^ 31 ∨ recycled' = []) := by
  have hle := h.fresh_le
  cases recycled with
  | cons i is =>
    obtain ⟨rfl, rfl⟩ := List.cons.inj hfree
    exact ⟨is, fresh, rfl, perm_middle.symm.trans h.perm, hle, .inl h.fresh_low⟩
  | nil =>
    have hlt : fresh < capacity := by
      by_contra hge
      rw [freeCells, Nat.sub_eq_zero_of_le (not_lt.mp hge)] at hfree
      cases hfree
    obtain ⟨n, hn⟩ := Nat.exists_eq_add_of_lt hlt
    have hsub : capacity - fresh = n + 1 := by omega
    rw [freeCells, hsub, nil_append, List.range'_succ] at hfree
    obtain ⟨rfl, rfl⟩ := List.cons.inj hfree
    refine ⟨[], fresh + 1, ?_, ?_, hlt, .inr rfl⟩
    · rw [freeCells, nil_append, show capacity - (fresh + 1) = n by omega]
    · have hperm := h.perm
      rw [append_nil] at hperm ⊢
      rw [range_succ]
      exact (hperm.cons fresh).trans (perm_append_singleton fresh _).symm

theorem Cells.give {refs' : List Nat} {l : Nat} (h : Cells capacity refs recycled fresh)
    (hperm : refs.Perm (l :: refs')) : Cells capacity refs' (l :: recycled) fresh where
  perm := perm_middle.trans ((hperm.append_right recycled).symm.trans h.perm)
  fresh_le := h.fresh_le
  fresh_low := h.fresh_low
  bounded := h.bounded

end Cells

theorem length_le_of_signed {keys : List ProcessID} (hnd : keys.Nodup)
    (hmsb : ∀ k ∈ keys, k.msb = false) : keys.length ≤ 2 ^ 31 := by
  have hnd' : (keys.map BitVec.toNat).Nodup :=
    hnd.map fun a b hab => BitVec.eq_of_toNat_eq hab
  have hsub : keys.map BitVec.toNat ⊆ List.range (2 ^ 31) := by
    intro n hn
    obtain ⟨k, hk, rfl⟩ := mem_map.mp hn
    have := BitVec.msb_eq_false_iff_two_mul_lt.mp (hmsb k hk)
    rw [mem_range]
    omega
  simpa using (hnd'.subperm hsub).length_le

section Mask
variable {key : ProcessID} {d : Nat}

theorem and_mask_ne_zero : key &&& (1#32 <<< d) ≠ 0 ↔ key.getLsbD d = true := by
  change key &&& BitVec.twoPow 32 d ≠ 0 ↔ _
  rw [BitVec.and_twoPow]
  split
  case isTrue h =>
    have hd : d < 32 := BitVec.lt_of_getLsbD h
    refine iff_of_true (fun h0 => ?_) h
    have hbit := congrArg (fun x => x.getLsbD d) h0
    simp [hd] at hbit
  case isFalse h => simpa using h

theorem mask_shiftLeft : (1#32 <<< d) <<< 1 = 1#32 <<< (d + 1) :=
  (BitVec.shiftLeft_add _ _ _).symm

theorem mask_shiftRight (hd : d < 31) : (1#32 <<< (d + 1)) >>> 1 = 1#32 <<< d :=
  (by decide : ∀ d < 31, (1#32 <<< (d + 1)) >>> 1 = 1#32 <<< d) d hd

theorem msb_of_nonneg (h : 0 ≤ key.toInt) : key.msb = false := by
  rw [BitVec.msb_eq_toInt]
  exact decide_eq_false (Int.not_lt.mpr h)

theorem eq_of_bits {k : ProcessID} (hkey : key.msb = false) (hk : k.msb = false)
    (h : ∀ n < 31, k.getLsbD n = key.getLsbD n) : k = key := by
  refine BitVec.eq_of_getLsbD_eq fun n hn => ?_
  rcases Nat.lt_or_ge n 31 with hlt | hge
  · exact h n hlt
  · have : n = 31 := by omega
    subst n
    exact hk.trans hkey.symm

end Mask

/-! ## The walks -/

section Walks
variable {M : SafeProcessMap C} {t : RefTree Nat}

theorem findLeaf_succ (rounds leaf leafParent : Nat) : M.findLeaf (rounds + 1) leaf leafParent =
      if M.link true leaf ≠ NULL_INDEX then M.findLeaf rounds (M.link true leaf) leaf
      else if M.link false leaf ≠ NULL_INDEX then M.findLeaf rounds (M.link false leaf) leaf
      else some (leaf, leafParent) := rfl

theorem findNode_succ (key : ProcessID) (rounds current parent d : Nat) :
    M.findNode key (rounds + 1) current parent (1#32 <<< d) =
      if current ≠ NULL_INDEX ∧ key ≠ M.pidAt current then
        M.findNode key rounds (M.link (key.getLsbD d) current) current (1#32 <<< (d + 1))
      else some (current, parent, 1#32 <<< d) := by
  have hside : (if key &&& (1#32 <<< d) ≠ 0 then (M.items current).pidLeft
      else (M.items current).pidRight) = M.link (key.getLsbD d) current :=
    if_congr and_mask_ne_zero rfl rfl
  rw [findNode, mask_shiftLeft, hside]
  rfl

theorem findNode_eq (key : ProcessID) (hL : t.Linked NULL_INDEX M.link) (rounds d p : Nat)
    (hrounds : t.refs.length < rounds) : M.findNode key rounds (t.root NULL_INDEX) p (1#32 <<< d) =
      some ((t.find NULL_INDEX M.pidAt BitVec.getLsbD key d p).1,
        (t.find NULL_INDEX M.pidAt BitVec.getLsbD key d p).2.1,
        1#32 <<< (t.find NULL_INDEX M.pidAt BitVec.getLsbD key d p).2.2) := by
  induction t generalizing rounds d p with
  | nil =>
    obtain ⟨rounds, rfl⟩ := Nat.exists_eq_add_of_lt hrounds
    rw [findNode_succ, if_neg fun h => h.1 rfl]
    rfl
  | node i sub ih =>
    obtain ⟨rounds, rfl⟩ := Nat.exists_eq_add_of_lt hrounds
    rw [findNode_succ, RefTree.find]
    change (if i ≠ NULL_INDEX ∧ key ≠ M.pidAt i then
      M.findNode key _ (M.link (key.getLsbD d) i) i _ else _) = _
    by_cases hkey : key = M.pidAt i
    · rw [if_neg fun h => h.2 hkey, if_pos hkey]
      rfl
    · rw [if_pos ⟨hL.1, hkey⟩, if_neg hkey, (hL.2 _).1]
      refine ih _ (hL.2 _).2 _ (d + 1) i ?_
      simp only [RefTree.refs, length_cons, length_append]
      cases key.getLsbD d <;> omega

theorem findLeaf_spec (hL : t.Linked NULL_INDEX M.link) (hne : t ≠ .nil) (rounds p : Nat)
    (hrounds : t.refs.length < rounds) :
    ∃ l q, M.findLeaf rounds (t.root NULL_INDEX) p = some (l, q) ∧ l ∈ t.refs ∧
      (∀ b, M.link b l = NULL_INDEX) ∧
      (l = t.root NULL_INDEX ∧ q = p ∨ q ∈ t.refs ∧ ∃ b, M.link b q = l) := by
  induction t generalizing rounds p with
  | nil => exact absurd rfl hne
  | node i sub ih =>
    obtain ⟨rounds, rfl⟩ := Nat.exists_eq_add_of_lt hrounds
    -- the two rounds that go on do so in the same way
    have descend : ∀ b, M.link b i ≠ NULL_INDEX →
        ∃ l q, M.findLeaf ((RefTree.node i sub).refs.length + rounds) (M.link b i) i =
            some (l, q) ∧ l ∈ (RefTree.node i sub).refs ∧ (∀ b, M.link b l = NULL_INDEX) ∧
          (l = i ∧ q = p ∨ q ∈ (RefTree.node i sub).refs ∧ ∃ b, M.link b q = l) := by
      intro b hb
      have hsub : sub b ≠ .nil := fun hnil => hb (by rw [(hL.2 b).1, hnil]; rfl)
      have hlen : (sub b).refs.length < (RefTree.node i sub).refs.length + rounds := by
        simp only [RefTree.refs, length_cons, length_append]
        cases b <;> omega
      rw [(hL.2 b).1]
      obtain ⟨l, q, heq, hl, hleaf, hq⟩ := ih b (hL.2 b).2 hsub _ i hlen
      refine ⟨l, q, heq, RefTree.mem_refs_node.mpr (.inr ⟨b, hl⟩), hleaf, .inr ?_⟩
      rcases hq with ⟨hroot, rfl⟩ | ⟨hq, hlink⟩
      · exact ⟨RefTree.mem_refs_node.mpr (.inl rfl), b, (hL.2 b).1.trans hroot.symm⟩
      · exact ⟨RefTree.mem_refs_node.mpr (.inr ⟨b, hq⟩), hlink⟩
    rw [RefTree.root, findLeaf_succ]
    split
    case isTrue hl => exact descend true hl
    case isFalse hl =>
      split
      case isTrue hr => exact descend false hr
      case isFalse hr =>
        refine ⟨i, p, rfl, RefTree.mem_refs_node.mpr (.inl rfl), ?_, .inl ⟨rfl, rfl⟩⟩
        rintro (_ | _)
        · exact not_not.mp hr
        · exact not_not.mp hl

end Walks

end LaunchManager.SafeProcessMap
