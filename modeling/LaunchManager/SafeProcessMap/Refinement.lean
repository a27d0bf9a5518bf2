import LaunchManager.SafeProcessMap.Shape

/-!
# The array is a finite map

What the map is for: it holds, for a process identifier, the component whose
process was inserted, or the exit status of a process that terminated before
its insertion, in a bounded number of entries. One round of `search` on the
array does what the specification does on the finite map.
-/

namespace LaunchManager

open List

set_option autoImplicit false

universe u
variable {C : Type u}

inductive MapEntry (C : Type u) where
  | component (c : C)
  | status (s : Int)
  deriving DecidableEq, Repr

def ProcessInfoData.entry (data : ProcessInfoData C) : MapEntry C :=
  match data.component with
  | some c => .component c
  | none => .status data.status

/-- What a round ends with: the value to return, unless the caller has to try again, and who is
to be told which status. -/
structure RoundOutcome (C : Type u) where
  ret : Option SafeProcessMapReturnType
  told : Option (C × Int)
  deriving DecidableEq, Repr

abbrev FiniteMap (C : Type u) := Finmap fun _ : ProcessID => MapEntry C

/-- The value that is returned when an entry is made. -/
def MapEntry.ret : MapEntry C → SafeProcessMapReturnType
  | .component _ => .ok
  | .status _ => .yield

def FiniteMap.attempt (capacity : Nat) (m : FiniteMap C) (key : ProcessID) (e : MapEntry C) :
    FiniteMap C × RoundOutcome C :=
  match m.lookup key, e with
  | none, e =>
    if m.keys.card < capacity then (m.insert key e, ⟨some e.ret, none⟩)
    else (m, ⟨some .insertionError, none⟩)
  | some (.status s), .component c => (m.erase key, ⟨some .yield, some (c, s)⟩)
  | some (.component c), .status s => (m.erase key, ⟨some .ok, some (c, s)⟩)
  | some (.component _), .component _ => (m, ⟨none, none⟩)
  | some (.status _), .status _ => (m, ⟨none, none⟩)

theorem FiniteMap.attempt_absent {capacity : Nat} {m : FiniteMap C} {key : ProcessID}
    (e : MapEntry C) (h : m.lookup key = none) : m.attempt capacity key e =
      if m.keys.card < capacity then (m.insert key e, ⟨some e.ret, none⟩)
      else (m, ⟨some .insertionError, none⟩) := by
  unfold FiniteMap.attempt
  rw [h]

namespace SafeProcessMap

/-- What follows the release of the lock in a round of `search`. -/
def outcome (code : Int) (target : ProcessInfoData C) : RoundOutcome C :=
  if code = -2 then ⟨none, none⟩
  else ⟨some (.ofCode code), target.component.map fun c => (c, target.status)⟩

def attempt (M : SafeProcessMap C) (key : ProcessID) (data : ProcessInfoData C) :
    Option (SafeProcessMap C × RoundOutcome C) :=
  (M.searchRound key data).map fun (M', code, target) => (M', outcome code target)

def Represents (L : List (ProcessID × ProcessInfoData C)) (m : FiniteMap C) : Prop :=
  ∀ k e, m.lookup k = some e ↔ ∃ x ∈ L, x.1 = k ∧ x.2.entry = e

def Refines (M : SafeProcessMap C) (m : FiniteMap C) : Prop :=
  ∃ t recycled fresh, M.Shape t recycled fresh ∧ Represents (t.refs.map M.contentAt) m

section Represents
variable {L L' : List (ProcessID × ProcessInfoData C)} {m : FiniteMap C}
variable {key : ProcessID} {data : ProcessInfoData C}

theorem Represents.perm (h : Represents L m) (hperm : L.Perm L') : Represents L' m := by
  intro k e
  rw [h k e]
  simp only [hperm.mem_iff]

theorem Represents.lookup_eq_none (h : Represents L m) :
    m.lookup key = none ↔ ∀ x ∈ L, x.1 ≠ key := by
  rw [Option.eq_none_iff_forall_ne_some]
  constructor
  · intro hnone x hx hkey
    exact hnone x.2.entry ((h key _).mpr ⟨x, hx, hkey, rfl⟩)
  · intro hne e he
    obtain ⟨x, hx, hkey, -⟩ := (h key e).mp he
    exact hne x hx hkey

theorem Represents.cons (h : Represents L m) (hne : ∀ x ∈ L, x.1 ≠ key) :
    Represents ((key, data) :: L) (m.insert key data.entry) := by
  intro k e
  by_cases hk : k = key
  · subst k
    rw [Finmap.lookup_insert, Option.some.injEq]
    constructor
    · rintro rfl
      exact ⟨_, mem_cons_self, rfl, rfl⟩
    · rintro ⟨x, hx, hkey, rfl⟩
      rcases mem_cons.mp hx with rfl | hx
      · rfl
      · exact absurd hkey (hne x hx)
  · rw [Finmap.lookup_insert_of_ne _ hk, h k e]
    constructor
    · rintro ⟨x, hx, hkey⟩
      exact ⟨x, mem_cons_of_mem _ hx, hkey⟩
    · rintro ⟨x, hx, rfl, he⟩
      rcases mem_cons.mp hx with rfl | hx
      · exact absurd rfl hk
      · exact ⟨x, hx, rfl, he⟩

theorem Represents.tail (h : Represents ((key, data) :: L) m) (hne : ∀ x ∈ L, x.1 ≠ key) :
    Represents L (m.erase key) := by
  intro k e
  by_cases hk : k = key
  · subst k
    rw [Finmap.lookup_erase]
    refine iff_of_false nofun ?_
    rintro ⟨x, hx, hkey, -⟩
    exact hne x hx hkey
  · rw [Finmap.lookup_erase_ne hk, h k e]
    constructor
    · rintro ⟨x, hx, rfl, he⟩
      rcases mem_cons.mp hx with rfl | hx
      · exact absurd rfl hk
      · exact ⟨x, hx, rfl, he⟩
    · rintro ⟨x, hx, hkey⟩
      exact ⟨x, mem_cons_of_mem _ hx, hkey⟩

theorem Represents.card (h : Represents L m) (hnd : (L.map Prod.fst).Nodup) :
    m.keys.card = L.length := by
  have hkeys : m.keys = (L.map Prod.fst).toFinset := by
    ext k
    rw [Finmap.mem_keys, Finmap.mem_iff, mem_toFinset, mem_map]
    constructor
    · rintro ⟨e, he⟩
      obtain ⟨x, hx, hkey, -⟩ := (h k e).mp he
      exact ⟨x, hx, hkey⟩
    · rintro ⟨x, hx, hkey⟩
      exact ⟨x.2.entry, (h k _).mpr ⟨x, hx, hkey, rfl⟩⟩
  rw [hkeys, toFinset_card_of_nodup hnd, length_map]

end Represents

/-! ## Entries come and go -/

section Shape
variable {M M' : SafeProcessMap C} {t t' : RefTree Nat} {recycled : List Nat} {fresh j l : Nat}
variable {key : ProcessID}

theorem Shape.nodup (h : M.Shape t recycled fresh) : t.refs.Nodup := h.cells.nodup

theorem Shape.free_cons (h : M.Shape t recycled fresh) (hne : M.freeListHead ≠ NULL_INDEX) :
    ∃ js, freeCells M.capacity recycled fresh = M.freeListHead :: js := by
  have hhead := h.head
  cases hcells : freeCells M.capacity recycled fresh with
  | nil =>
    rw [hcells] at hhead
    exact absurd hhead hne
  | cons i is =>
    rw [hcells] at hhead
    exact ⟨is, by rw [hhead]; rfl⟩

theorem Shape.head_not_mem (h : M.Shape t recycled fresh) (hne : M.freeListHead ≠ NULL_INDEX) :
    M.freeListHead ∉ t.refs := by
  obtain ⟨js, hjs⟩ := h.free_cons hne
  exact h.cells.not_mem (hjs ▸ mem_cons_self)

theorem Shape.grow (h : M.Shape t recycled fresh) (hne : M.freeListHead ≠ NULL_INDEX)
    (hcap : M'.capacity = M.capacity) (hhead : M'.freeListHead = M.link false M.freeListHead)
    (hfree : ∀ i, i ∉ t'.refs → M'.link false i = M.link false i)
    (hlinked : t'.Linked NULL_INDEX M'.link) (hroot : M'.treeRoot = t'.root NULL_INDEX)
    (hplaced : t'.Placed M'.pidAt BitVec.getLsbD (fun _ => True) 0)
    (hperm : t'.refs.Perm (M.freeListHead :: t.refs)) (hkey : M'.pidAt M.freeListHead = key)
    (hsame : ∀ i ∈ t.refs, M'.pidAt i = M.pidAt i) (hnew : ∀ i ∈ t.refs, M.pidAt i ≠ key)
    (hmsb : key.msb = false) : ∃ recycled' fresh', M'.Shape t' recycled' fresh' := by
  have hkeys : (t'.refs.map M'.pidAt).Perm (key :: t.refs.map M.pidAt) := by
    refine (hperm.map _).trans ?_
    rw [map_cons, hkey, map_congr_left hsame]
  have hnd : (t'.refs.map M'.pidAt).Nodup := by
    refine hkeys.nodup_iff.mpr (nodup_cons.mpr ⟨fun hmem => ?_, h.keys⟩)
    obtain ⟨i, hi, heq⟩ := mem_map.mp hmem
    exact hnew i hi heq
  have hsigned : ∀ k ∈ t'.refs.map M'.pidAt, k.msb = false := by
    intro k hk
    rcases mem_cons.mp (hkeys.mem_iff.mp hk) with rfl | hk
    · exact hmsb
    · obtain ⟨i, hi, rfl⟩ := mem_map.mp hk
      exact h.signed i hi
  obtain ⟨js, hjs⟩ := h.free_cons hne
  obtain ⟨recycled', fresh', rfl, hcells, hle, hlow⟩ := h.cells.take hjs
  have hcells' : (t'.refs ++ recycled').Perm (List.range fresh') :=
    (hperm.append_right recycled').trans hcells
  have hcell : Cells M'.capacity t'.refs recycled' fresh' := by
    refine ⟨hcells', hcap ▸ hle, ?_, hcap ▸ h.cells.bounded⟩
    rcases hlow with hlow | rfl
    · exact hlow
    · have hlen := hcells'.length_eq
      have hkeysLen := length_le_of_signed hnd hsigned
      rw [append_nil, length_range] at hlen
      rw [length_map, hlen] at hkeysLen
      exact hkeysLen
  have hold := h.free
  rw [hjs] at hold
  refine ⟨recycled', fresh', hlinked, hroot, hplaced, hnd,
    fun i hi => hsigned _ (mem_map_of_mem hi), hcell, ?_, ?_⟩
  · rw [hcap]
    refine hold.2.2.congr fun i hi => hfree i fun hmem => ?_
    rw [hcap] at hcell
    exact hcell.not_mem hi hmem
  · rw [hcap, hhead]
    exact hold.2.1

theorem Shape.shrink (h : M.Shape t recycled fresh) (hcap : M'.capacity = M.capacity)
    (hhead : M'.freeListHead = l) (hnext : M'.link false l = M.freeListHead)
    (hfree : ∀ i, i ∉ t.refs → M'.link false i = M.link false i)
    (hlinked : t'.Linked NULL_INDEX M'.link) (hroot : M'.treeRoot = t'.root NULL_INDEX)
    (hplaced : t'.Placed M'.pidAt BitVec.getLsbD (fun _ => True) 0)
    (hperm : t.refs.Perm (l :: t'.refs))
    (hkeys : (t.refs.map M.pidAt).Perm (key :: t'.refs.map M'.pidAt)) :
    M'.Shape t' (l :: recycled) fresh := by
  have hl : l ∈ t.refs := hperm.mem_iff.mpr mem_cons_self
  refine ⟨hlinked, hroot, hplaced, (nodup_cons.mp (hkeys.nodup_iff.mp h.keys)).2, ?_,
    hcap ▸ h.cells.give hperm, ?_, hhead⟩
  · intro i hi
    obtain ⟨n, hn, heq⟩ := mem_map.mp
      (hkeys.mem_iff.mpr (mem_cons_of_mem key (mem_map_of_mem hi)))
    rw [← heq]
    exact h.signed n hn
  · rw [hcap]
    exact ⟨h.linked.ne_null hl, hnext.trans h.head,
      h.free.congr fun i hi => hfree i (h.cells.not_mem hi)⟩

end Shape

/-! ## What the functions write -/

section Writes
variable (M : SafeProcessMap C) (b c : Bool) (i j v : Nat) (node : ProcessTreeNode C)
variable (key : ProcessID) (data : ProcessInfoData C)

theorem link_setItem : (M.setItem i node).link b j =
    if j = i then (if b then node.pidLeft else node.pidRight) else M.link b j := by
  unfold link setItem
  by_cases h : j = i
  · subst h
    simp
  · simp [h]

theorem contentAt_setItem : (M.setItem i node).contentAt j =
    if j = i then (node.pid, node.data) else M.contentAt j := by
  unfold contentAt pidAt dataAt setItem
  by_cases h : j = i
  · subst h
    simp
  · simp [h]

def setLink (b : Bool) (i v : Nat) : SafeProcessMap C :=
  M.setItem i (if b then { M.items i with pidLeft := v } else { M.items i with pidRight := v })

theorem link_setLink : (M.setLink b i v).link c j = if j = i ∧ c = b then v else M.link c j := by
  rw [setLink, link_setItem]
  by_cases h : j = i
  · subst h
    cases b <;> cases c <;> simp [link]
  · simp [h]

theorem contentAt_setLink : (M.setLink b i v).contentAt j = M.contentAt j := by
  rw [setLink, contentAt_setItem]
  by_cases h : j = i
  · subst h
    cases b <;> simp [contentAt, pidAt, dataAt]
  · simp [h]

theorem link_takeCell : (M.takeCell key data).link b j =
    if j = M.freeListHead then NULL_INDEX else M.link b j := by
  rw [takeCell, link_setItem]
  cases b <;> rfl

theorem contentAt_takeCell : (M.takeCell key data).contentAt j =
    if j = M.freeListHead then (key, data) else M.contentAt j := by
  rw [takeCell, contentAt_setItem]
  rfl

theorem insertNode_eq {d : Nat} (parent : Nat) (hd : d < 31) (hne : M.freeListHead ≠ NULL_INDEX) :
    M.insertNode (1#32 <<< (d + 1)) parent key data =
      ((M.takeCell key data).setLink (key.getLsbD d) parent M.freeListHead,
        insertionCode data) := by
  rw [insertNode, if_neg hne, mask_shiftRight hd, setLink]
  have hside : key &&& (1#32 <<< d) ≠ 0 ↔ key.getLsbD d = true := and_mask_ne_zero
  dsimp only
  by_cases hbit : key.getLsbD d = true
  · rw [if_pos (hside.mpr hbit), if_pos hbit]
    rfl
  · rw [if_neg fun h => hbit (hside.mp h), if_neg hbit]
    rfl

theorem unlink_eq (parent child : Nat) : M.unlink parent child =
    M.setLink (decide (M.link true parent = child)) parent NULL_INDEX := by
  unfold unlink setLink link
  by_cases h : (M.items parent).pidLeft = child <;> simp [h]

end Writes

/-! ## Rounds -/

section Rounds
variable {M : SafeProcessMap C} {t : RefTree Nat} {recycled : List Nat} {fresh c l p q : Nat}
variable {key : ProcessID} {data : ProcessInfoData C} {m : FiniteMap C}

theorem outcome_insertionCode (target : ProcessInfoData C) (h : target.component = none) :
    outcome (insertionCode data) target = ⟨some data.entry.ret, none⟩ := by
  unfold outcome insertionCode ProcessInfoData.entry
  cases hdata : data.component <;> simp [h, SafeProcessMapReturnType.ofCode, MapEntry.ret]

theorem Shape.root_ne_locked (h : M.Shape t recycled fresh) : M.treeRoot ≠ LOCKED_INDEX := by
  rw [h.root]
  cases t with
  | nil => decide
  | node i sub =>
    have hlt := h.cells.mem_lt (RefTree.mem_refs_node.mpr (.inl rfl) : i ∈ _)
    have hlow := h.cells.fresh_low
    rw [RefTree.root, LOCKED_INDEX]
    omega

theorem Shape.withCurrent (h : M.Shape t recycled fresh) (current : Nat) :
    Shape { M with current } t recycled fresh := { h with }

theorem Shape.length_le (h : M.Shape t recycled fresh) : t.refs.length < M.capacity + 1 := by
  have := h.cells.length
  omega

theorem Refines.first (h : M.Shape .nil recycled fresh)
    (hR : Represents ((RefTree.nil : RefTree Nat).refs.map M.contentAt) m)
    (hne : M.freeListHead ≠ NULL_INDEX) (hmsb : key.msb = false) :
    Refines { M.takeCell key data with treeRoot := M.freeListHead }
      (m.insert key data.entry) := by
  let t' : RefTree Nat := .node M.freeListHead fun _ => .nil
  have hlink : ∀ b, (M.takeCell key data).link b M.freeListHead = NULL_INDEX := fun b => by
    rw [link_takeCell, if_pos rfl]
  have hcontent : (M.takeCell key data).contentAt M.freeListHead = (key, data) := by
    rw [contentAt_takeCell, if_pos rfl]
  have hS : ∃ recycled' fresh',
      Shape { M.takeCell key data with treeRoot := M.freeListHead } t' recycled' fresh' := by
    refine h.grow hne rfl rfl (fun i hi => ?_) ⟨hne, fun b => ⟨hlink b, trivial⟩⟩ rfl
      ⟨trivial, fun _ => trivial⟩ (.refl _) (congrArg Prod.fst hcontent) nofun nofun hmsb
    change (M.takeCell key data).link false i = _
    rw [link_takeCell, if_neg fun heq => hi (RefTree.mem_refs_node.mpr (.inl heq))]
  obtain ⟨recycled', fresh', hS⟩ := hS
  refine ⟨t', recycled', fresh', hS, ?_⟩
  change Represents [(M.takeCell key data).contentAt M.freeListHead] _
  rw [hcontent]
  exact hR.cons nofun

theorem Refines.planted {e : Nat} (h : M.Shape t recycled fresh)
    (hR : Represents (t.refs.map M.contentAt) m) (hne : M.freeListHead ≠ NULL_INDEX)
    (hmsb : key.msb = false) (htree : t ≠ .nil)
    (hfind : t.find NULL_INDEX M.pidAt BitVec.getLsbD key 0 p = (NULL_INDEX, q, e)) :
    Refines ((M.takeCell key data).setLink (key.getLsbD (e - 1)) q M.freeListHead)
      (m.insert key data.entry) := by
  obtain ⟨hq, -, hnull, -, -⟩ := RefTree.find_absent h.linked h.placed htree hfind
  have hnew : ∀ i ∈ t.refs, M.pidAt i ≠ key := h.placed.not_mem_of_find h.linked trivial hfind
  have hhead := h.head_not_mem hne
  have hother : ∀ i ∈ t.refs, i ≠ M.freeListHead := fun i hi heq => hhead (heq ▸ hi)
  let M' := (M.takeCell key data).setLink (key.getLsbD (e - 1)) q M.freeListHead
  let t' := t.plant q (key.getLsbD (e - 1)) M.freeListHead
  have hlink : ∀ b i, M'.link b i = if i = q ∧ b = key.getLsbD (e - 1) then M.freeListHead
      else if i = M.freeListHead then NULL_INDEX else M.link b i := fun b i => by
    rw [link_setLink, link_takeCell]
  have hcontent : ∀ i, M'.contentAt i = if i = M.freeListHead then (key, data)
      else M.contentAt i := fun i => by
    rw [contentAt_setLink, contentAt_takeCell]
  have hperm : t'.refs.Perm (M.freeListHead :: t.refs) :=
    RefTree.refs_plant h.linked h.nodup hq hnull
  have hcell : M'.contentAt M.freeListHead = (key, data) := by
    rw [hcontent, if_pos rfl]
  have hsame : ∀ i ∈ t.refs, M'.contentAt i = M.contentAt i := fun i hi => by
    rw [hcontent, if_neg (hother i hi)]
  have hpid : ∀ i ∈ t.refs, M'.pidAt i = M.pidAt i := fun i hi =>
    congrArg Prod.fst (hsame i hi)
  have hS : ∃ recycled' fresh', Shape M' t' recycled' fresh' := by
    refine h.grow hne rfl rfl (fun i hi => ?_) ?_ (h.root.trans RefTree.root_plant.symm) ?_ hperm
      (congrArg Prod.fst hcell) hpid hnew hmsb
    · have hi' : i ≠ M.freeListHead ∧ i ∉ t.refs := by
        simpa [hperm.mem_iff] using hi
      rw [hlink, if_neg, if_neg hi'.1]
      rintro ⟨rfl, -⟩
      exact hi'.2 hq
    · refine h.linked.plant h.nodup hne (fun i hi b => ?_) fun b => ?_
      · rw [hlink, if_neg (hother i hi)]
      · rw [hlink, if_neg, if_pos rfl]
        exact fun heq => hother q hq heq.1.symm
    · exact h.placed.plant h.linked h.nodup htree trivial hfind (congrArg Prod.fst hcell) hpid
  obtain ⟨recycled', fresh', hS⟩ := hS
  refine ⟨t', recycled', fresh', hS, ?_⟩
  have hcontents : ((key, data) :: t.refs.map M.contentAt).Perm (t'.refs.map M'.contentAt) := by
    refine List.Perm.symm ((hperm.map _).trans ?_)
    rw [map_cons, hcell, map_congr_left hsame]
  refine (hR.cons fun x hx => ?_).perm hcontents
  obtain ⟨i, hi, rfl⟩ := mem_map.mp hx
  exact hnew i hi

/-- What `deleteNode` leaves of the cells: `l` is free, its contents are where those of `c` were
and no link leads to it. -/
structure Deleted (M M' : SafeProcessMap C) (t : RefTree Nat) (c l : Nat) : Prop where
  capacity : M'.capacity = M.capacity
  head : M'.freeListHead = l
  next : M'.link false l = M.freeListHead
  frame : ∀ i, i ∉ t.refs → M'.link false i = M.link false i
  links : ∀ i ∈ t.refs, i ≠ l → ∀ b,
    M'.link b i = if M.link b i = l then NULL_INDEX else M.link b i
  contents : ∀ i ≠ l, M'.contentAt i = if i = c then M.contentAt l else M.contentAt i

theorem link_freeCell (M : SafeProcessMap C) (b : Bool) (i : Nat) : (M.freeCell l).link b i =
    if i = l then (if b then NULL_INDEX else M.freeListHead) else M.link b i :=
  link_setItem M b l i _

theorem contentAt_freeCell (M : SafeProcessMap C) {i : Nat} (hi : i ≠ l) :
    (M.freeCell l).contentAt i = M.contentAt i :=
  (contentAt_setItem M l i _).trans (if_neg hi)

theorem link_unlink (hL : t.Linked NULL_INDEX M.link) (hnd : t.refs.Nodup) (hq : q ∈ t.refs)
    (hne : l ≠ NULL_INDEX) (hparent : ∃ b, M.link b q = l) {i : Nat} (hi : i ∈ t.refs) (b : Bool) :
    (M.unlink q l).link b i = if M.link b i = l then NULL_INDEX else M.link b i := by
  obtain ⟨c, hc⟩ := hparent
  have hside : decide (M.link true q = l) = c := by
    cases c with
    | true => exact decide_eq_true hc
    | false =>
      refine decide_eq_false fun htrue => ?_
      have := (hL.link_inj hnd hq hq (htrue ▸ hne) (htrue.trans hc.symm)).2
      cases this
  rw [unlink_eq, link_setLink, hside]
  refine if_congr ⟨?_, fun h => ?_⟩ rfl rfl
  · rintro ⟨rfl, rfl⟩
    exact hc
  · exact hL.link_inj hnd hi hq (h ▸ hne) (h.trans hc.symm)

theorem Deleted.of_unlink {N : SafeProcessMap C} (h : M.Shape t recycled fresh) (hl : l ∈ t.refs)
    (hq : q ∈ t.refs) (hparent : ∃ b, M.link b q = l) (hcap : N.capacity = M.capacity)
    (hhead : N.freeListHead = M.freeListHead) (hlink : ∀ b i, N.link b i = M.link b i)
    (hcontent : ∀ i ≠ l, N.contentAt i = if i = c then M.contentAt l else M.contentAt i) :
    Deleted M ((N.unlink q l).freeCell l) t c l := by
  have hlne : l ≠ NULL_INDEX := h.linked.ne_null hl
  have hL : t.Linked NULL_INDEX N.link := h.linked.congr fun i _ b => hlink b i
  refine ⟨?_, rfl, ?_, fun i hi => ?_, fun i hi hne b => ?_, fun i hi => ?_⟩
  · rw [unlink_eq]
    exact hcap
  · rw [link_freeCell, if_pos rfl, unlink_eq]
    exact hhead
  · have hil : i ≠ l := fun heq => hi (heq ▸ hl)
    have hiq : i ≠ q := fun heq => hi (heq ▸ hq)
    rw [link_freeCell, if_neg hil, unlink_eq, link_setLink, if_neg fun heq => hiq heq.1, hlink]
  · rw [link_freeCell, if_neg hne, link_unlink hL h.nodup hq hlne
      (hparent.imp fun b hb => (hlink b q).trans hb) hi, hlink]
  · rw [contentAt_freeCell _ hi, unlink_eq, contentAt_setLink, hcontent i hi]

theorem deleteNode_spec (h : M.Shape t recycled fresh) (hbelow : t.Below M.current l)
    (hp : M.current = t.root NULL_INDEX ∨ p ∈ t.refs ∧ ∃ b, M.link b p = M.current)
    (hq : l = M.current ∨ q ∈ t.refs ∧ ∃ b, M.link b q = l) :
    Deleted M (M.deleteNode p l M.treeRoot q).1 t M.current l ∧
      (M.deleteNode p l M.treeRoot q).2 = (t.prune l).root NULL_INDEX := by
  have hl : l ∈ t.refs := hbelow.mem
  rw [RefTree.root_prune, ← h.root]
  unfold deleteNode
  split
  case isTrue hroot =>
    -- the tree has no other cell
    have hcur : M.current = l := by
      rw [hroot, h.root] at hbelow ⊢
      exact hbelow.eq_root h.nodup
    refine ⟨⟨rfl, rfl, ?_, fun i hi => ?_, fun i hi hne b => ?_, fun i hi => ?_⟩,
      (if_pos hroot.symm).symm⟩
    · rw [link_freeCell, if_pos rfl]
      rfl
    · have hil : i ≠ l := fun heq => hi (heq ▸ hl)
      rw [link_freeCell, if_neg hil]
    · rw [link_freeCell, if_neg hne, if_neg]
      intro heq
      exact (h.linked.link_mem h.nodup hi (heq ▸ h.linked.ne_null hl)).2
        (heq.trans (hroot.trans h.root))
    · rw [contentAt_freeCell _ hi, if_neg (hcur ▸ hi)]
  case isFalse hroot =>
    refine ⟨?_, ?_⟩
    · split
      case isTrue hcur =>
        rw [← hcur] at hp ⊢
        obtain ⟨hp, hparent⟩ := hp.resolve_left fun heq => hroot (heq.trans h.root.symm)
        exact .of_unlink h hl hp hparent rfl rfl (fun _ _ => rfl) fun i hi => (if_neg hi).symm
      case isFalse hcur =>
        obtain ⟨hq, hparent⟩ := hq.resolve_left hcur
        refine .of_unlink h hl hq hparent rfl rfl (fun b i => ?_) fun i _ => ?_
        · rw [link_setItem]
          split
          case isTrue heq =>
            subst heq
            rfl
          case isFalse => rfl
        · rw [contentAt_setItem]
          rfl
    · rw [if_neg (Ne.symm hroot)]
      split <;> rfl

variable {M' : SafeProcessMap C}

theorem Deleted.contents_perm {rest : List Nat} (h : Deleted M M' t c l)
    (hnd : t.refs.Nodup) (hc : c ∈ t.refs) (hperm : t.refs.Perm (l :: rest)) :
    (t.refs.map M.contentAt).Perm (M.contentAt c :: rest.map M'.contentAt) := by
  have hnd' := nodup_cons.mp (hperm.nodup_iff.mp hnd)
  have hne : ∀ i ∈ rest, i ≠ l := fun i hi heq => hnd'.1 (heq ▸ hi)
  refine (hperm.map _).trans ?_
  rw [map_cons]
  rcases mem_cons.mp (hperm.mem_iff.mp hc) with rfl | hc
  · have hsame : ∀ i ∈ rest, M'.contentAt i = M.contentAt i := fun i hi => by
      rw [h.contents i (hne i hi), if_neg (hne i hi)]
    rw [map_congr_left hsame]
  · -- the contents of the leaf are now in the cell `c`
    have hrest := perm_cons_erase hc
    have hnd'' := nodup_cons.mp (hrest.nodup_iff.mp hnd'.2)
    have hsame : ∀ i ∈ rest.erase c, M'.contentAt i = M.contentAt i := fun i hi => by
      have hic : i ≠ c := fun heq => hnd''.1 (heq ▸ hi)
      rw [h.contents i (hne i (mem_of_mem_erase hi)), if_neg hic]
    have hmoved : M'.contentAt c = M.contentAt l := by
      rw [h.contents c (hne c hc), if_pos rfl]
    have hold := hrest.map M.contentAt
    have hnew := hrest.map M'.contentAt
    rw [map_cons] at hold hnew
    rw [hmoved, map_congr_left hsame] at hnew
    exact (hold.cons _).trans ((List.Perm.swap _ _ _).trans (hnew.symm.cons _))

theorem Refines.removed (h : M.Shape t recycled fresh)
    (hR : Represents (t.refs.map M.contentAt) m) (hdel : Deleted M M' t c l)
    (hbelow : t.Below c l) (hleaf : ∀ b, M.link b l = NULL_INDEX) (hkey : M.pidAt c = key) :
    Refines { M' with treeRoot := (t.prune l).root NULL_INDEX } (m.erase key) := by
  have hperm := RefTree.refs_prune h.linked h.nodup hbelow.mem hleaf
  have hcontents := hdel.contents_perm h.nodup hbelow.mem_top hperm
  have hkeys : (t.refs.map M.pidAt).Perm (key :: (t.prune l).refs.map M'.pidAt) := by
    have := hcontents.map Prod.fst
    rw [map_map, map_cons, map_map] at this
    exact hkey ▸ this
  refine ⟨t.prune l, l :: recycled, fresh, ?_, ?_⟩
  · refine h.shrink hdel.capacity hdel.head hdel.next hdel.frame (h.linked.prune hdel.links) rfl
      ?_ hperm hkeys
    refine h.placed.move h.nodup hbelow fun i _ hne => ?_
    have hpid := congrArg Prod.fst (hdel.contents i hne)
    rw [apply_ite Prod.fst] at hpid
    exact hpid
  · have hR' := hR.perm hcontents
    rw [show M.contentAt c = (key, M.dataAt c) from hkey ▸ rfl] at hR'
    refine hR'.tail fun x hx heq => ?_
    have hnd := nodup_cons.mp (hkeys.nodup_iff.mp h.keys)
    obtain ⟨i, hi, rfl⟩ := mem_map.mp hx
    exact hnd.1 (mem_map.mpr ⟨i, hi, heq⟩)

theorem removeNode_spec (h : M.Shape t recycled fresh)
    (hR : Represents (t.refs.map M.contentAt) m) (hc : M.current ∈ t.refs)
    (hkey : M.pidAt M.current = key)
    (hp : M.current = t.root NULL_INDEX ∨ p ∈ t.refs ∧ ∃ b, M.link b p = M.current)
    (target : ProcessInfoData C) :
    ∃ M' root code target', M.removeNode target data p M.treeRoot = some (M', root, code, target') ∧
      outcome code target' = (m.attempt M.capacity key data.entry).2 ∧
      M'.capacity = M.capacity ∧
      Refines { M' with treeRoot := root } (m.attempt M.capacity key data.entry).1 := by
  have hlookup : m.lookup key = some (M.dataAt M.current).entry :=
    (hR key _).mpr ⟨M.contentAt M.current, mem_map_of_mem hc, hkey, rfl⟩
  -- the leaf below the cell takes its place
  obtain ⟨u, hu, huroot, hulinked, hubelow, hulen⟩ := h.linked.exists_subtree hc
  obtain ⟨l, q, hleaf, hl, hnull, hq⟩ :=
    findLeaf_spec hulinked hu (M.capacity + 1) M.current (hulen.trans_lt h.length_le)
  rw [huroot] at hleaf hq
  have hq' : l = M.current ∨ q ∈ t.refs ∧ ∃ b, M.link b q = l := by
    refine hq.imp And.left fun hq => ⟨(hubelow q hq.1).mem, hq.2⟩
  obtain ⟨hdel, hroot⟩ := deleteNode_spec h (hubelow l hl) hp hq'
  have herase : Refines { (M.deleteNode p l M.treeRoot q).1 with
      treeRoot := (M.deleteNode p l M.treeRoot q).2 } (m.erase key) := by
    rw [hroot]
    exact Refines.removed h hR hdel (hubelow l hl) hnull hkey
  have hstored : (M.items M.current).data = M.dataAt M.current := rfl
  have hsame : Refines M m := ⟨t, recycled, fresh, h, hR⟩
  unfold removeNode FiniteMap.attempt
  rw [hlookup, hstored, hleaf]
  generalize M.dataAt M.current = stored
  obtain ⟨status, component⟩ := data
  obtain ⟨storedStatus, storedComponent⟩ := stored
  cases component with
  | none =>
    cases storedComponent with
    | none => exact ⟨M, M.treeRoot, -2, target, rfl, rfl, rfl, hsame⟩
    | some c => exact ⟨_, _, 0, _, rfl, rfl, hdel.capacity, herase⟩
  | some c =>
    cases storedComponent with
    | none => exact ⟨_, _, 1, _, rfl, rfl, hdel.capacity, herase⟩
    | some _ => exact ⟨M, M.treeRoot, -2, target, rfl, rfl, rfl, hsame⟩

section Search
variable (M data) in
theorem searchRound_empty (hroot : M.treeRoot = NULL_INDEX) :
    M.searchRound key data = some ({ M.takeCell key data with treeRoot := M.freeListHead },
      insertionCode data, ⟨data.status, none⟩) := by
  rw [searchRound, if_neg (by rw [hroot]; decide), if_pos hroot]
  rfl

variable (data) in
theorem searchRound_walk {mask : BitVec 32} (h : M.Shape t recycled fresh)
    (hne : M.treeRoot ≠ NULL_INDEX)
    (hwalk : M.findNode key (M.capacity + 1) M.treeRoot NULL_INDEX 1 = some (c, q, mask)) :
    M.searchRound key data =
      if c = NULL_INDEX then
        some ({ (insertNode { M with current := c } mask q key data).1 with
          treeRoot := M.treeRoot },
          (insertNode { M with current := c } mask q key data).2, ⟨data.status, none⟩)
      else
        (removeNode { M with current := c } ⟨data.status, none⟩ data q M.treeRoot).map
          fun r => ({ r.1 with treeRoot := r.2.1 }, r.2.2.1, r.2.2.2) := by
  rw [searchRound, if_neg h.root_ne_locked, if_neg hne, hwalk]
  rfl

end Search

theorem Shape.card_eq (h : M.Shape t recycled fresh)
    (hR : Represents (t.refs.map M.contentAt) m) : m.keys.card = t.refs.length := by
  refine (hR.card ?_).trans (length_map _)
  rw [map_map]
  exact h.keys

theorem Refines.card_le (hM : M.Refines m) : m.keys.card ≤ M.capacity := by
  obtain ⟨t, recycled, fresh, h, hR⟩ := hM
  rw [h.card_eq hR]
  exact Nat.le_of_lt_succ h.length_le

variable (data) in
/-- A round on the array does what the specification does on the finite map it holds. -/
theorem attempt_refines (hM : M.Refines m) (hcap : 0 < M.capacity) (hmsb : key.msb = false) :
    ∃ M', M.attempt key data = some (M', (m.attempt M.capacity key data.entry).2) ∧
      M'.capacity = M.capacity ∧ M'.Refines (m.attempt M.capacity key data.entry).1 := by
  obtain ⟨t, recycled, fresh, h, hR⟩ := hM
  have hcard := h.card_eq hR
  have hfull : M.freeListHead = NULL_INDEX ↔ t.refs.length = M.capacity := by
    rw [h.head]
    exact h.cells.full_iff
  unfold attempt
  by_cases ht : t = .nil
  · subst ht
    have hne : M.freeListHead ≠ NULL_INDEX := fun heq => hcap.ne (hfull.mp heq)
    have hlookup : m.lookup key = none := hR.lookup_eq_none.mpr nofun
    rw [searchRound_empty M data h.root, FiniteMap.attempt_absent _ hlookup, if_pos (hcard ▸ hcap)]
    exact ⟨_, congrArg some (congrArg _ (outcome_insertionCode _ rfl)), rfl,
      Refines.first h hR hne hmsb⟩
  have hroot : M.treeRoot ≠ NULL_INDEX := fun heq =>
    ht (h.linked.root_eq_null.mp (h.root.symm.trans heq))
  have hwalk := findNode_eq key h.linked (M.capacity + 1) 0 NULL_INDEX h.length_le
  rcases hfind : t.find NULL_INDEX M.pidAt BitVec.getLsbD key 0 NULL_INDEX with ⟨c, q, e⟩
  simp only [hfind, ← h.root] at hwalk
  rw [searchRound_walk data h hroot hwalk]
  split
  case isTrue hc =>
    subst hc
    obtain ⟨hq, he, -, hkey, hbits⟩ := RefTree.find_absent h.linked h.placed ht hfind
    have hnew := h.placed.not_mem_of_find h.linked trivial hfind
    have hlookup : m.lookup key = none := by
      refine hR.lookup_eq_none.mpr fun x hx => ?_
      obtain ⟨i, hi, rfl⟩ := mem_map.mp hx
      exact hnew i hi
    rw [FiniteMap.attempt_absent _ hlookup, hcard]
    by_cases hne : M.freeListHead = NULL_INDEX
    · -- no cell is left
      rw [if_neg (hfull.mp hne).not_lt, insertNode, if_pos hne]
      exact ⟨_, rfl, rfl, t, recycled, fresh, h.withCurrent _, hR⟩
    · -- the level of the new cell is below the sign bit, else the last key would be this one
      obtain ⟨e, rfl⟩ : ∃ n, e = n + 1 := ⟨e - 1, by omega⟩
      have hlevel : e < 31 := by
        by_contra hge
        exact hkey (eq_of_bits hmsb (h.signed q hq) fun n hn => hbits n n.zero_le (by omega))
      have hlt : t.refs.length < M.capacity :=
        lt_of_le_of_ne (Nat.lt_succ_iff.mp h.length_le) fun heq => hne (hfull.mpr heq)
      rw [if_pos hlt, insertNode_eq { M with current := NULL_INDEX } key data q hlevel hne]
      exact ⟨_, congrArg some (congrArg _ (outcome_insertionCode _ rfl)), rfl,
        Refines.planted (h.withCurrent _) hR hne hmsb ht hfind⟩
  case isFalse hc =>
    obtain ⟨hmem, hkey, hparent⟩ := RefTree.find_found h.linked hfind hc
    obtain ⟨M', root, code, target, heq, hout, hcap', href⟩ :=
      removeNode_spec (h.withCurrent c) hR hmem hkey (hparent.imp_left And.left) ⟨data.status, none⟩
    rw [heq]
    exact ⟨_, congrArg some (congrArg _ hout), hcap', href⟩

end Rounds

theorem linkedBy_range' {capacity : Nat} (hle : capacity ≤ NULL_INDEX) (n s : Nat)
    (h : s + n = capacity) :
    (List.range' s n).LinkedBy NULL_INDEX ((create capacity : SafeProcessMap C).link false) := by
  induction n generalizing s with
  | zero => trivial
  | succ n ih =>
    rw [List.range'_succ]
    refine ⟨by omega, ?_, ih (s + 1) (by omega)⟩
    have hs : s < capacity := by omega
    have hbound : capacity ≤ 2 ^ 32 - 1 := hle
    simp only [link, create, if_neg (by omega : capacity ≠ 0), if_pos hs, Bool.false_eq_true,
      if_false]
    cases n with
    | zero => rw [if_pos (by omega)]; rfl
    | succ n =>
      rw [if_neg (by omega), Nat.mod_eq_of_lt (by omega)]
      rfl

theorem create_refines {capacity : Nat} (hpos : 0 < capacity) (hle : capacity ≤ NULL_INDEX) :
    Refines (create capacity : SafeProcessMap C) ∅ := by
  have hcap : (create capacity : SafeProcessMap C).capacity = capacity := by
    rw [create, if_neg hpos.ne']
  refine ⟨.nil, [], 0, ⟨trivial, ?_, trivial, .nil, nofun, ?_, ?_, ?_⟩, ?_⟩
  · rw [create, if_neg hpos.ne']
    rfl
  · exact ⟨.refl _, Nat.zero_le _, Nat.zero_le _, hcap.symm ▸ hle⟩
  · rw [hcap]
    exact linkedBy_range' hle capacity 0 (Nat.zero_add _)
  · rw [hcap]
    obtain ⟨n, rfl⟩ := Nat.exists_eq_add_one_of_ne_zero hpos.ne'
    rw [create, if_neg hpos.ne']
    rfl
  · intro k e
    rw [Finmap.lookup_empty]
    exact iff_of_false nofun fun ⟨x, hx, _⟩ => by cases hx

end SafeProcessMap

end LaunchManager
