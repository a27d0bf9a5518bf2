import LaunchManager.Library.Runs
import LaunchManager.SafeProcessMap.Refinement

/-!
# The search tree keeps its shape

What can be read off the links of the array without knowing the tree: where a
path from the root leads, and which cell stands at a place of the free list.
Along every history of searches the array is divided into the two, the bits of
a stored key spell the path to it, and a path has at most 31 links, so that the
mask of `findNode` never leaves the word and both loops end.
-/

namespace LaunchManager.SafeProcessMap

open List

set_option autoImplicit false

open Runs

universe u
variable {C : Type u}

/-- The cell at the end of a path from the root; `true` stands for `pidLeft`. -/
def cellAt (M : SafeProcessMap C) (path : List Bool) : Nat :=
  RefTree.follow NULL_INDEX M.link M.treeRoot path

/-- The cell at place `n` of the free list. -/
def freeAt (M : SafeProcessMap C) (n : Nat) : Nat :=
  listAt NULL_INDEX (M.link false) M.freeListHead n

structure Walk where
  current : Nat
  parent : Nat := NULL_INDEX
  mask : BitVec 32 := 1

/-- One round of the loop of `findNode`, unless the loop is left. -/
def findRound (M : SafeProcessMap C) (key : ProcessID) (w : Walk) (_ : Unit) : Option Walk :=
  if w.current ≠ NULL_INDEX ∧ key ≠ (M.items w.current).pid then
    some
      { current :=
          if key &&& w.mask ≠ 0 then (M.items w.current).pidLeft
          else (M.items w.current).pidRight
        parent := w.current
        mask := w.mask <<< 1 }
  else none

theorem findNode_eq_findRound (M : SafeProcessMap C) (key : ProcessID) (rounds : Nat) (w : Walk) :
    M.findNode key (rounds + 1) w.current w.parent w.mask =
      (M.findRound key w ()).elim (some (w.current, w.parent, w.mask)) fun w' =>
        M.findNode key rounds w'.current w'.parent w'.mask := by
  rw [findNode, findRound]
  split <;> rfl

def searchStep (M : SafeProcessMap C) (call : ProcessID × ProcessInfoData C) :
    Option (SafeProcessMap C) :=
  (M.searchRound call.1 call.2).map Prod.fst

def NonNegative (_ : SafeProcessMap C) (call : ProcessID × ProcessInfoData C) : Prop :=
  0 ≤ call.1.toInt

instance (M : SafeProcessMap C) (call : ProcessID × ProcessInfoData C) :
    Decidable (NonNegative M call) :=
  inferInstanceAs (Decidable (0 ≤ call.1.toInt))

structure KeepsShape (M : SafeProcessMap C) : Prop where
  cell_lt : ∀ path, M.cellAt path ≠ NULL_INDEX → M.cellAt path < M.capacity
  free_lt : ∀ n, M.freeAt n ≠ NULL_INDEX → M.freeAt n < M.capacity
  slot : ∀ i < M.capacity,
    (∃! path, M.cellAt path = i) ∧ (∀ n, M.freeAt n ≠ i) ∨
      (∃! n, M.freeAt n = i) ∧ ∀ path, M.cellAt path ≠ i
  bits : ∀ path, M.cellAt path ≠ NULL_INDEX → ∀ n < path.length,
    path[n]? = some ((M.items (M.cellAt path)).pid.getLsbD n)
  depth : ∀ path, M.cellAt path ≠ NULL_INDEX → path.length ≤ 31
  mask : ∀ key : ProcessID, 0 ≤ key.toInt → ∀ w,
    Run (M.findRound key) anyStep { current := M.treeRoot } w → w.mask ≠ 0
  findNode_ends : ∀ key, ∃ found,
    M.findNode key (M.capacity + 1) M.treeRoot NULL_INDEX 1 = some found
  findLeaf_ends : ∀ path, M.cellAt path ≠ NULL_INDEX → ∃ found,
    M.findLeaf (M.capacity + 1) (M.cellAt path) (M.cellAt path) = some found
  search_ends : ∀ (key : ProcessID) data, 0 ≤ key.toInt → ∃ found,
    M.searchRound key data = some found

section Shape
variable {M : SafeProcessMap C} {t : RefTree Nat} {recycled : List Nat} {fresh i : Nat}
variable {path : List Bool} {key : ProcessID}

theorem Shape.cellAt_eq_iff (h : M.Shape t recycled fresh) (hi : i ≠ NULL_INDEX) :
    M.cellAt path = i ↔ t.atPath path = some i := by
  unfold cellAt
  rw [h.root]
  exact h.linked.follow_eq_iff hi

theorem Shape.atPath_cellAt (h : M.Shape t recycled fresh) (hne : M.cellAt path ≠ NULL_INDEX) :
    t.atPath path = some (M.cellAt path) :=
  (h.cellAt_eq_iff hne).mp rfl

theorem Shape.freeAt_eq_iff (h : M.Shape t recycled fresh) {n : Nat} (hi : i ≠ NULL_INDEX) :
    M.freeAt n = i ↔ (freeCells M.capacity recycled fresh)[n]? = some i := by
  unfold freeAt
  rw [h.head]
  exact h.free.listAt_eq_iff hi

theorem Shape.cell_lt (h : M.Shape t recycled fresh) (hne : M.cellAt path ≠ NULL_INDEX) :
    M.cellAt path < M.capacity :=
  (h.cells.mem_lt (RefTree.mem_refs_of_atPath (h.atPath_cellAt hne))).trans_le h.cells.fresh_le

theorem Shape.free_lt (h : M.Shape t recycled fresh) {n : Nat} (hne : M.freeAt n ≠ NULL_INDEX) :
    M.freeAt n < M.capacity :=
  h.cells.free_lt (mem_of_getElem? ((h.freeAt_eq_iff hne).mp rfl))

theorem Shape.slot (h : M.Shape t recycled fresh) (hi : i < M.capacity) :
    (∃! path, M.cellAt path = i) ∧ (∀ n, M.freeAt n ≠ i) ∨
      (∃! n, M.freeAt n = i) ∧ ∀ path, M.cellAt path ≠ i := by
  have hne : i ≠ NULL_INDEX := (hi.trans_le h.cells.bounded).ne
  have hcell : ∀ path, M.cellAt path = i ↔ t.atPath path = some i := fun _ => h.cellAt_eq_iff hne
  have hfree : ∀ n, M.freeAt n = i ↔ (freeCells M.capacity recycled fresh)[n]? = some i :=
    fun _ => h.freeAt_eq_iff hne
  by_cases hmem : i ∈ t.refs
  · obtain ⟨path, hpath⟩ := RefTree.exists_atPath hmem
    refine .inl ⟨⟨path, (hcell path).mpr hpath, fun path' hpath' => ?_⟩, fun n hn => ?_⟩
    · exact RefTree.atPath_unique h.nodup ((hcell path').mp hpath') hpath
    · exact h.cells.not_mem (mem_of_getElem? ((hfree n).mp hn)) hmem
  · obtain ⟨n, hn⟩ := mem_iff_getElem?.mp (h.cells.mem_free hi hmem)
    refine .inr ⟨⟨n, (hfree n).mpr hn, fun n' hn' => ?_⟩, fun path hpath => ?_⟩
    · have hlt : n' < (freeCells M.capacity recycled fresh).length :=
        (List.getElem?_eq_some_iff.mp ((hfree n').mp hn')).1
      exact (List.getElem?_inj hlt h.cells.free_nodup).mp (((hfree n').mp hn').trans hn.symm)
    · exact hmem (RefTree.mem_refs_of_atPath ((hcell path).mp hpath))

theorem Shape.getElem?_path (h : M.Shape t recycled fresh) (hpath : t.atPath path = some i)
    {n : Nat} (hn : n < path.length) : path[n]? = some ((M.pidAt i).getLsbD n) := by
  have hbit := h.placed.getElem?_atPath hpath hn
  rwa [Nat.zero_add] at hbit

theorem Shape.depth (h : M.Shape t recycled fresh) (hpath : t.atPath path = some i) :
    path.length ≤ 31 := by
  by_contra hlong
  obtain ⟨j, hj⟩ := RefTree.exists_atPath_take hpath 31
  have hi := RefTree.mem_refs_of_atPath hpath
  have hjmem := RefTree.mem_refs_of_atPath hj
  have htake : (path.take 31).length = 31 := by
    rw [length_take]
    omega
  have hkeys : M.pidAt i = M.pidAt j := by
    refine eq_of_bits (h.signed j hjmem) (h.signed i hi) fun n hn => ?_
    have hbit := h.getElem?_path hpath (n := n) (by omega)
    have hbit' := h.getElem?_path hj (n := n) (by omega)
    rw [List.getElem?_take_of_lt hn] at hbit'
    exact Option.some.inj (hbit.symm.trans hbit')
  obtain rfl : i = j := inj_on_of_nodup_map h.keys hi hjmem hkeys
  have hsame := RefTree.atPath_unique h.nodup hpath hj
  rw [← hsame] at htake
  omega

/-- Where the walk of a key stands after some rounds. -/
def OnPath (M : SafeProcessMap C) (key : ProcessID) (w : Walk) : Prop :=
  ∃ path : List Bool, path.length ≤ 31 ∧ w.current = M.cellAt path ∧
    w.mask = 1#32 <<< path.length ∧ ∀ n < path.length, path[n]? = some (key.getLsbD n)

theorem OnPath.init : OnPath M key { current := M.treeRoot } :=
  ⟨[], Nat.zero_le _, rfl, rfl, fun n hn => absurd hn n.not_lt_zero⟩

/-- At the last level the walk has found its key, so it does not go on. -/
theorem OnPath.round (h : M.Shape t recycled fresh) (hmsb : key.msb = false) {w w' : Walk}
    (hw : OnPath M key w) (hround : M.findRound key w () = some w') : OnPath M key w' := by
  obtain ⟨path, hlen, hcur, hmask, hbits⟩ := hw
  obtain ⟨⟨hne, hkey⟩, hw'⟩ := Option.ite_none_right_eq_some.mp hround
  cases hw'
  rw [hcur] at hne hkey
  have hpath := h.atPath_cellAt hne
  have hlt : path.length < 31 := by
    refine lt_of_le_of_ne hlen fun heq => hkey ?_
    have hi := h.signed _ (RefTree.mem_refs_of_atPath hpath)
    refine eq_of_bits hi hmsb fun n hn => ?_
    have hbit := h.getElem?_path hpath (n := n) (by omega)
    exact Option.some.inj ((hbits n (by omega)).symm.trans hbit)
  refine ⟨path ++ [key.getLsbD path.length], ?_, ?_, ?_, ?_⟩
  · rw [length_append, length_singleton]
    exact hlt
  · have hside : M.cellAt (path ++ [key.getLsbD path.length]) =
        M.link (key.getLsbD path.length) (M.cellAt path) := RefTree.follow_concat _ hne
    rw [hside, hcur, hmask]
    exact if_congr and_mask_ne_zero rfl rfl
  · rw [length_append, hmask]
    exact mask_shiftLeft
  · intro n hn
    rw [length_append, length_singleton] at hn
    rcases Nat.lt_succ_iff_lt_or_eq.mp hn with hn | rfl
    · rw [List.getElem?_append_left hn]
      exact hbits n hn
    · rw [List.getElem?_concat_length]

theorem OnPath.mask_ne_zero {w : Walk} (hw : OnPath M key w) : w.mask ≠ 0 := by
  obtain ⟨path, hlen, -, hmask, -⟩ := hw
  rw [hmask]
  exact (by decide : ∀ d < 32, 1#32 <<< d ≠ 0) _ (Nat.lt_succ_of_le hlen)

theorem Shape.findNode_ends (h : M.Shape t recycled fresh) (key : ProcessID) :
    ∃ found, M.findNode key (M.capacity + 1) M.treeRoot NULL_INDEX 1 = some found := by
  rw [h.root]
  exact ⟨_, findNode_eq key h.linked (M.capacity + 1) 0 NULL_INDEX h.length_le⟩

theorem Shape.findLeaf_ends (h : M.Shape t recycled fresh) (hne : M.cellAt path ≠ NULL_INDEX) :
    ∃ found, M.findLeaf (M.capacity + 1) (M.cellAt path) (M.cellAt path) = some found := by
  obtain ⟨u, hu, hroot, hlinked, -, hlen⟩ :=
    h.linked.exists_subtree (RefTree.mem_refs_of_atPath (h.atPath_cellAt hne))
  obtain ⟨l, q, heq, -⟩ :=
    findLeaf_spec hlinked hu (M.capacity + 1) (M.cellAt path) (hlen.trans_lt h.length_le)
  rw [hroot] at heq
  exact ⟨_, heq⟩

end Shape

/-! ## Histories -/

/-- An array without cells stays as it is where it can be seen. -/
structure Idle (M : SafeProcessMap C) : Prop where
  capacity : M.capacity = 0
  root : M.treeRoot = NULL_INDEX
  head : M.freeListHead = NULL_INDEX
  next : (M.items NULL_INDEX).pidRight = NULL_INDEX

def Sound (M : SafeProcessMap C) : Prop := M.Idle ∨ 0 < M.capacity ∧ ∃ m, M.Refines m

section Histories
variable {M : SafeProcessMap C} {key : ProcessID}

theorem Idle.shape (h : M.Idle) : M.Shape .nil [] 0 where
  linked := trivial
  root := h.root
  placed := trivial
  keys := .nil
  signed := nofun
  cells := ⟨.refl _, Nat.zero_le _, Nat.zero_le _, h.capacity ▸ Nat.zero_le _⟩
  free := by
    rw [h.capacity]
    trivial
  head := by
    rw [h.capacity]
    exact h.head

theorem Idle.searchRound (h : M.Idle) (key : ProcessID) (data : ProcessInfoData C) :
    ∃ M' code target, M.searchRound key data = some (M', code, target) ∧ M'.Idle := by
  refine ⟨_, _, _, searchRound_empty M data h.root, h.capacity, h.head, ?_, ?_⟩
  · change (M.items M.freeListHead).pidRight = NULL_INDEX
    rw [h.head]
    exact h.next
  · change (Function.update M.items M.freeListHead _ NULL_INDEX).pidRight = NULL_INDEX
    rw [h.head, Function.update_self]

theorem Sound.shape (h : M.Sound) : ∃ t recycled fresh, M.Shape t recycled fresh := by
  rcases h with h | ⟨-, m, t, recycled, fresh, h, -⟩
  · exact ⟨_, _, _, h.shape⟩
  · exact ⟨t, recycled, fresh, h⟩

theorem Sound.create {capacity : Nat} (hle : capacity ≤ NULL_INDEX) :
    (create capacity : SafeProcessMap C).Sound := by
  rcases Nat.eq_zero_or_pos capacity with rfl | hpos
  · exact .inl ⟨rfl, rfl, rfl, rfl⟩
  · refine .inr ⟨?_, ∅, create_refines hpos hle⟩
    rw [SafeProcessMap.create, if_neg hpos.ne']
    exact hpos

theorem Sound.searchRound (h : M.Sound) (hkey : 0 ≤ key.toInt) (data : ProcessInfoData C) :
    ∃ M' code target, M.searchRound key data = some (M', code, target) ∧ M'.Sound := by
  rcases h with h | ⟨hcap, m, hm⟩
  · obtain ⟨M', code, target, heq, h'⟩ := h.searchRound key data
    exact ⟨M', code, target, heq, .inl h'⟩
  · obtain ⟨M', hattempt, hcap', hm'⟩ := attempt_refines data hm hcap (msb_of_nonneg hkey)
    obtain ⟨⟨M₁, code, target⟩, heq, houtcome⟩ := Option.map_eq_some_iff.mp hattempt
    obtain rfl : M₁ = M' := congrArg Prod.fst houtcome
    exact ⟨M₁, code, target, heq, .inr ⟨hcap'.symm ▸ hcap, _, hm'⟩⟩

theorem Sound.step (h : M.Sound) {call : ProcessID × ProcessInfoData C} {M' : SafeProcessMap C}
    (hkey : NonNegative M call) (hstep : M.searchStep call = some M') : M'.Sound := by
  obtain ⟨M₁, code, target, heq, h'⟩ := h.searchRound hkey call.2
  rw [searchStep, heq] at hstep
  cases hstep
  exact h'

theorem Sound.keepsShape (h : M.Sound) : M.KeepsShape := by
  obtain ⟨t, recycled, fresh, hshape⟩ := h.shape
  refine ⟨fun _ => hshape.cell_lt, fun _ => hshape.free_lt, fun _ => hshape.slot, ?_, ?_, ?_,
    hshape.findNode_ends, fun _ => hshape.findLeaf_ends, ?_⟩
  · intro path hne n hn
    exact hshape.getElem?_path (hshape.atPath_cellAt hne) hn
  · intro path hne
    exact hshape.depth (hshape.atPath_cellAt hne)
  · intro key hkey w hrun
    have hw : OnPath M key w := hrun.invariant (OnPath M key)
      (fun hw _ hround => hw.round hshape (msb_of_nonneg hkey) hround) .init
    exact hw.mask_ne_zero
  · intro key data hkey
    obtain ⟨M', code, target, heq, -⟩ := h.searchRound hkey data
    exact ⟨_, heq⟩

end Histories

theorem search_tree_keeps_shape {capacity : Nat} (hle : capacity < 2 ^ 32) {M : SafeProcessMap C}
    (hrun : Run searchStep NonNegative (create capacity) M) : M.KeepsShape := by
  have hsound : M.Sound := hrun.invariant Sound (fun h hkey hstep => h.step hkey hstep)
    (.create (Nat.le_of_lt_succ hle))
  exact hsound.keepsShape

theorem search_tree_keeps_shape_moved :
    ∃ M : SafeProcessMap Unit, M.KeepsShape ∧ M.cellAt [true] = 1 ∧
      (M.items 1).pid = 15 ∧ M.cellAt [true, true] = NULL_INDEX ∧ M.freeAt 0 = 2 := by
  obtain ⟨M, hrun, hM⟩ := Run.exists_of_exec searchStep NonNegative
    (create 4 : SafeProcessMap Unit)
    (fun M => M.cellAt [true] = 1 ∧ (M.items 1).pid = 15 ∧ M.cellAt [true, true] = NULL_INDEX ∧
      M.freeAt 0 = 2)
    [(3, ⟨0, some ()⟩), (7, ⟨0, some ()⟩), (15, ⟨0, some ()⟩), (7, ⟨0, none⟩)]
    (by decide +kernel)
  exact ⟨M, @search_tree_keeps_shape _ 4 (by decide) M hrun, hM⟩

end LaunchManager.SafeProcessMap
