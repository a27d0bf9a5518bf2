import Mathlib.Data.List.Nodup
import Mathlib.Data.List.Perm.Basic
import Mathlib.Logic.Function.Basic

/-!
# Trees in a store of linked cells

A store gives every reference two links, one for each side; `null` ends a path.
A `RefTree` is the shape that the links spell out from a root, so what the
program does to links is said by what happens to a tree. In a digital search
tree the bit of a key at every level says on which side the key is placed.
-/

set_option autoImplicit false

universe u v
variable {Ref : Type u} {Key : Type v}

inductive RefTree (Ref : Type u) where
  | nil
  | node (ref : Ref) (sub : Bool → RefTree Ref)

namespace RefTree

open List

def refs : RefTree Ref → List Ref
  | nil => []
  | node i sub => i :: ((sub true).refs ++ (sub false).refs)

def root (null : Ref) : RefTree Ref → Ref
  | nil => null
  | node i _ => i

/-- The links of the store spell out the tree. -/
def Linked (null : Ref) (link : Bool → Ref → Ref) : RefTree Ref → Prop
  | nil => True
  | node i sub => i ≠ null ∧ ∀ b, link b i = (sub b).root null ∧ (sub b).Linked null link

/-- `l` is a reference of the subtree at `c`. -/
def Below (c l : Ref) : RefTree Ref → Prop
  | nil => False
  | node i sub => (i = c ∧ l ∈ (node i sub).refs) ∨ ∃ b, (sub b).Below c l

/-- All keys satisfy `P`, and from level `d` on the bits of a key lead to it. -/
def Placed (key : Ref → Key) (bit : Key → Nat → Bool) :
    (Key → Prop) → Nat → RefTree Ref → Prop
  | _, _, nil => True
  | P, d, node i sub =>
    P (key i) ∧ ∀ b, (sub b).Placed key bit (fun k => P k ∧ bit k d = b) (d + 1)

variable {i c l : Ref} {sub : Bool → RefTree Ref} {t : RefTree Ref}

@[simp] theorem mem_refs_node {j : Ref} :
    j ∈ (node i sub).refs ↔ j = i ∨ ∃ b, j ∈ (sub b).refs := by
  simp [refs, or_comm]

theorem nodup_node (h : (node i sub).refs.Nodup) :
    (∀ b, i ∉ (sub b).refs) ∧ (∀ b, (sub b).refs.Nodup) ∧
      ∀ b c j, j ∈ (sub b).refs → j ∈ (sub c).refs → b = c := by
  rw [refs, nodup_cons, nodup_append', mem_append, not_or] at h
  obtain ⟨⟨hit, hif⟩, ht, hf, hdis⟩ := h
  refine ⟨?_, ?_, ?_⟩
  · rintro (_ | _)
    · exact hif
    · exact hit
  · rintro (_ | _)
    · exact hf
    · exact ht
  · rintro (_ | _) (_ | _) j hb hc
    · rfl
    · exact absurd hb (hdis hc)
    · exact absurd hc (hdis hb)
    · rfl

theorem Below.mem (h : t.Below c l) : l ∈ t.refs := by
  induction t with
  | nil => exact h.elim
  | node i sub ih =>
    rcases h with ⟨-, h⟩ | ⟨b, h⟩
    · exact h
    · exact mem_refs_node.mpr (.inr ⟨b, ih b h⟩)

theorem Below.mem_top (h : t.Below c l) : c ∈ t.refs := by
  induction t with
  | nil => exact h.elim
  | node i sub ih =>
    rcases h with ⟨rfl, -⟩ | ⟨b, h⟩
    · exact mem_refs_node.mpr (.inl rfl)
    · exact mem_refs_node.mpr (.inr ⟨b, ih b h⟩)

theorem Below.eq_root {null : Ref} (hnd : t.refs.Nodup)
    (h : t.Below c (t.root null)) : c = t.root null := by
  cases t with
  | nil => exact h.elim
  | node i sub =>
    rcases h with ⟨rfl, -⟩ | ⟨b, h⟩
    · rfl
    · exact absurd h.mem ((nodup_node hnd).1 b)

section Linked
variable {null : Ref} {link link' : Bool → Ref → Ref} {p j : Ref} {b c : Bool}

theorem Linked.ne_null (h : t.Linked null link) (hi : i ∈ t.refs) : i ≠ null := by
  induction t with
  | nil => cases hi
  | node j sub ih =>
    rcases mem_refs_node.mp hi with rfl | ⟨b, hi⟩
    · exact h.1
    · exact ih b (h.2 b).2 hi

theorem Linked.congr (h : t.Linked null link)
    (heq : ∀ i ∈ t.refs, ∀ b, link' b i = link b i) : t.Linked null link' := by
  induction t with
  | nil => trivial
  | node j sub ih =>
    refine ⟨h.1, fun b => ⟨?_, ?_⟩⟩
    · rw [heq j (mem_refs_node.mpr (.inl rfl)) b]
      exact (h.2 b).1
    · exact ih b (h.2 b).2 fun i hi => heq i (mem_refs_node.mpr (.inr ⟨b, hi⟩))

theorem Linked.root_eq_null (h : t.Linked null link) : t.root null = null ↔ t = nil := by
  cases t with
  | nil => exact ⟨fun _ => rfl, fun _ => rfl⟩
  | node i sub => exact ⟨fun hi => absurd hi h.1, fun hi => by cases hi⟩

theorem root_mem (h : t ≠ nil) : t.root null ∈ t.refs := by
  cases t with
  | nil => exact absurd rfl h
  | node i sub => exact mem_refs_node.mpr (.inl rfl)

theorem Linked.link_mem (h : t.Linked null link) (hnd : t.refs.Nodup) (hi : i ∈ t.refs)
    (hne : link b i ≠ null) : link b i ∈ t.refs ∧ link b i ≠ t.root null := by
  induction t with
  | nil => cases hi
  | node j sub ih =>
    obtain ⟨hj, hsub, -⟩ := nodup_node hnd
    have inside : ∃ c, link b i ∈ (sub c).refs := by
      rcases mem_refs_node.mp hi with rfl | ⟨c, hi⟩
      · rw [(h.2 b).1] at hne ⊢
        exact ⟨b, root_mem fun hnil => hne (by rw [hnil]; rfl)⟩
      · exact ⟨c, (ih c (h.2 c).2 (hsub c) hi).1⟩
    refine ⟨mem_refs_node.mpr (.inr inside), fun heq => ?_⟩
    obtain ⟨c, hc⟩ := inside
    rw [heq] at hc
    exact hj c hc

theorem Linked.link_inj (h : t.Linked null link) (hnd : t.refs.Nodup) (hi : i ∈ t.refs)
    (hp : p ∈ t.refs) (hne : link b i ≠ null) (heq : link b i = link c p) : i = p ∧ b = c := by
  induction t with
  | nil => cases hi
  | node j sub ih =>
    obtain ⟨-, hsub, hdis⟩ := nodup_node hnd
    have child : ∀ {d}, link d j ≠ null → link d j ∈ (sub d).refs := by
      intro d hd
      rw [(h.2 d).1] at hd ⊢
      exact root_mem fun hnil => hd (by rw [hnil]; rfl)
    rcases mem_refs_node.mp hi with rfl | ⟨d, hi'⟩ <;>
      rcases mem_refs_node.mp hp with rfl | ⟨e, hp'⟩
    · refine ⟨rfl, hdis b c _ (child hne) ?_⟩
      rw [heq] at hne ⊢
      exact child hne
    · rw [heq] at hne
      obtain ⟨hmem, hroot⟩ := (h.2 e).2.link_mem (hsub e) hp' hne
      have hbe : b = e := hdis b e _ (child (heq ▸ hne)) (heq ▸ hmem)
      subst e
      exact absurd (heq.symm.trans (h.2 b).1) hroot
    · obtain ⟨hmem, hroot⟩ := (h.2 d).2.link_mem (hsub d) hi' hne
      have hcd : c = d := hdis c d _ (child (heq ▸ hne)) (heq ▸ hmem)
      subst d
      exact absurd (heq.trans (h.2 c).1) hroot
    · have hmem := ((h.2 d).2.link_mem (hsub d) hi' hne).1
      have hmem' := ((h.2 e).2.link_mem (hsub e) hp' (heq ▸ hne)).1
      have hde : d = e := hdis d e _ hmem (heq ▸ hmem')
      subst e
      exact ih d (h.2 d).2 (hsub d) hi' hp'

theorem Linked.exists_subtree (h : t.Linked null link) (hi : i ∈ t.refs) :
    ∃ u : RefTree Ref, u ≠ nil ∧ u.root null = i ∧ u.Linked null link ∧
      (∀ l ∈ u.refs, t.Below i l) ∧ u.refs.length ≤ t.refs.length := by
  induction t with
  | nil => cases hi
  | node j sub ih =>
    rcases mem_refs_node.mp hi with rfl | ⟨b, hi⟩
    · exact ⟨node i sub, nofun, rfl, h, fun l hl => .inl ⟨rfl, hl⟩, Nat.le_refl _⟩
    · obtain ⟨u, hne, hroot, hu, hbelow, hlen⟩ := ih b (h.2 b).2 hi
      refine ⟨u, hne, hroot, hu, fun l hl => .inr ⟨b, hbelow l hl⟩, ?_⟩
      simp only [refs, length_cons, length_append]
      cases b <;> omega

end Linked

section Placed
variable {key key' : Ref → Key} {bit : Key → Nat → Bool} {P : Key → Prop} {d : Nat}

theorem Placed.of_mem (h : t.Placed key bit P d) (hi : i ∈ t.refs) : P (key i) := by
  induction t generalizing P d with
  | nil => cases hi
  | node j sub ih =>
    rcases mem_refs_node.mp hi with rfl | ⟨b, hi⟩
    · exact h.1
    · exact (ih b (h.2 b) hi).1

theorem Placed.congr (h : t.Placed key bit P d) (heq : ∀ i ∈ t.refs, key' i = key i) :
    t.Placed key' bit P d := by
  induction t generalizing P d with
  | nil => trivial
  | node j sub ih =>
    refine ⟨?_, fun b => ih b (h.2 b) fun i hi => heq i (mem_refs_node.mpr (.inr ⟨b, hi⟩))⟩
    rw [heq j (mem_refs_node.mpr (.inl rfl))]
    exact h.1

end Placed

section Change
variable [DecidableEq Ref]

/-- The tree with a new leaf `j` on one side of `p`. -/
def plant (p : Ref) (side : Bool) (j : Ref) : RefTree Ref → RefTree Ref
  | nil => nil
  | node i sub =>
    if i = p then node i (Function.update sub side (node j fun _ => nil))
    else node i fun b => (sub b).plant p side j

/-- The tree without the subtree at `l`. -/
def prune (l : Ref) : RefTree Ref → RefTree Ref
  | nil => nil
  | node i sub => if i = l then nil else node i fun b => (sub b).prune l

variable {null : Ref} {link link' : Bool → Ref → Ref} {p j : Ref} {side : Bool}

theorem root_plant : (t.plant p side j).root null = t.root null := by
  cases t with
  | nil => rfl
  | node i sub =>
    rw [plant]
    split <;> rfl

theorem plant_of_not_mem (h : p ∉ t.refs) : t.plant p side j = t := by
  induction t with
  | nil => rfl
  | node i sub ih =>
    rw [mem_refs_node, not_or, not_exists] at h
    rw [plant, if_neg (Ne.symm h.1)]
    congr 1
    exact funext fun b => ih b (h.2 b)

theorem Linked.plant (h : t.Linked null link) (hnd : t.refs.Nodup) (hj : j ≠ null)
    (hold : ∀ i ∈ t.refs, ∀ b, link' b i = if i = p ∧ b = side then j else link b i)
    (hnew : ∀ b, link' b j = null) : (t.plant p side j).Linked null link' := by
  induction t with
  | nil => trivial
  | node i sub ih =>
    obtain ⟨hni, hsub, -⟩ := nodup_node hnd
    have hi := hold i (mem_refs_node.mpr (.inl rfl))
    have hbelow : ∀ b, ∀ i ∈ (sub b).refs, ∀ c,
        link' c i = if i = p ∧ c = side then j else link c i :=
      fun b i hi => hold i (mem_refs_node.mpr (.inr ⟨b, hi⟩))
    rw [RefTree.plant]
    split
    case isFalse hne =>
      refine ⟨h.1, fun b => ⟨?_, ih b (h.2 b).2 (hsub b) (hbelow b)⟩⟩
      rw [hi, if_neg fun hc => hne hc.1, root_plant]
      exact (h.2 b).1
    case isTrue heq =>
      subst i
      refine ⟨h.1, fun b => ?_⟩
      by_cases hb : b = side
      · subst b
        rw [hi, if_pos ⟨rfl, rfl⟩, Function.update_self]
        exact ⟨rfl, hj, fun b => ⟨hnew b, trivial⟩⟩
      · rw [hi, if_neg fun hc => hb hc.2, Function.update_of_ne hb]
        refine ⟨(h.2 b).1, (h.2 b).2.congr fun m hm c => ?_⟩
        rw [hbelow b m hm, if_neg]
        rintro ⟨rfl, -⟩
        exact hni b hm

theorem refs_plant (h : t.Linked null link) (hnd : t.refs.Nodup) (hp : p ∈ t.refs)
    (hnull : link side p = null) : (t.plant p side j).refs.Perm (j :: t.refs) := by
  induction t with
  | nil => cases hp
  | node i sub ih =>
    obtain ⟨hni, hsub, hdis⟩ := nodup_node hnd
    rw [plant]
    split
    case isTrue heq =>
      subst i
      have hnil : sub side = nil := (h.2 side).2.root_eq_null.mp ((h.2 side).1.symm.trans hnull)
      cases side with
      | true => simpa [refs, hnil] using List.Perm.swap j p _
      | false => simpa [refs, hnil] using
          (perm_append_singleton j (sub true).refs).cons p |>.trans (List.Perm.swap j p _)
    case isFalse hne =>
      obtain ⟨b, hb⟩ := (mem_refs_node.mp hp).resolve_left (Ne.symm hne)
      have hperm := ih b (h.2 b).2 (hsub b) hb
      have hother : ∀ c, c ≠ b → (sub c).plant p side j = sub c := fun c hc =>
        plant_of_not_mem fun hmem => hc (hdis c b p hmem hb)
      cases b with
      | true =>
        simp only [refs, hother false nofun]
        exact ((hperm.append_right _).cons i).trans (List.Perm.swap j i _)
      | false =>
        simp only [refs, hother true nofun]
        exact (((hperm.append_left _).trans perm_middle).cons i).trans (List.Perm.swap j i _)

theorem root_prune : (t.prune l).root null = if t.root null = l then null else t.root null := by
  cases t with
  | nil => exact (ite_self null).symm
  | node i sub =>
    rw [prune, root]
    split <;> rfl

theorem prune_of_not_mem (h : l ∉ t.refs) : t.prune l = t := by
  induction t with
  | nil => rfl
  | node i sub ih =>
    rw [mem_refs_node, not_or, not_exists] at h
    rw [prune, if_neg (Ne.symm h.1)]
    congr 1
    exact funext fun b => ih b (h.2 b)

theorem Linked.prune (h : t.Linked null link)
    (hold : ∀ i ∈ t.refs, i ≠ l → ∀ b, link' b i = if link b i = l then null else link b i) :
    (t.prune l).Linked null link' := by
  induction t with
  | nil => trivial
  | node i sub ih =>
    rw [RefTree.prune]
    split
    case isTrue => trivial
    case isFalse hne =>
      refine ⟨h.1, fun b => ⟨?_, ?_⟩⟩
      · rw [hold i (mem_refs_node.mpr (.inl rfl)) hne, root_prune, (h.2 b).1]
      · exact ih b (h.2 b).2 fun i hi => hold i (mem_refs_node.mpr (.inr ⟨b, hi⟩))

theorem refs_prune (h : t.Linked null link) (hnd : t.refs.Nodup) (hl : l ∈ t.refs)
    (hleaf : ∀ b, link b l = null) : t.refs.Perm (l :: (t.prune l).refs) := by
  induction t with
  | nil => cases hl
  | node i sub ih =>
    obtain ⟨-, hsub, hdis⟩ := nodup_node hnd
    rw [prune]
    split
    case isTrue heq =>
      subst i
      have hnil : ∀ b, sub b = nil := fun b =>
        (h.2 b).2.root_eq_null.mp ((h.2 b).1.symm.trans (hleaf b))
      simp [refs, hnil]
    case isFalse hne =>
      obtain ⟨b, hb⟩ := (mem_refs_node.mp hl).resolve_left (Ne.symm hne)
      have hperm := ih b (h.2 b).2 (hsub b) hb
      have hother : ∀ c, c ≠ b → (sub c).prune l = sub c := fun c hc =>
        prune_of_not_mem fun hmem => hc (hdis c b l hmem hb)
      cases b with
      | true =>
        simp only [refs, hother false nofun]
        exact ((hperm.append_right _).cons i).trans (List.Perm.swap l i _)
      | false =>
        simp only [refs, hother true nofun]
        exact (((hperm.append_left _).trans perm_middle).cons i).trans (List.Perm.swap l i _)

variable {key key' : Ref → Key} {bit : Key → Nat → Bool} {P : Key → Prop} {d : Nat}

theorem Placed.prune (h : t.Placed key bit P d) : (t.prune l).Placed key bit P d := by
  induction t generalizing P d with
  | nil => trivial
  | node i sub ih =>
    rw [RefTree.prune]
    split
    case isTrue => trivial
    case isFalse => exact ⟨h.1, fun b => ih b (h.2 b)⟩

theorem mem_refs_of_prune {i : Ref} (h : i ∈ (t.prune l).refs) : i ∈ t.refs ∧ i ≠ l := by
  induction t with
  | nil => cases h
  | node j sub ih =>
    rw [RefTree.prune] at h
    split at h
    case isTrue => cases h
    case isFalse hne =>
      rcases mem_refs_node.mp h with rfl | ⟨b, hb⟩
      · exact ⟨mem_refs_node.mpr (.inl rfl), hne⟩
      · exact ⟨mem_refs_node.mpr (.inr ⟨b, (ih b hb).1⟩), (ih b hb).2⟩

/-- A key may move up to any cell above its own: its bits lead there too. -/
theorem Placed.move (h : t.Placed key bit P d) (hnd : t.refs.Nodup) (hbelow : t.Below c l)
    (hnew : ∀ i ∈ t.refs, i ≠ l → key' i = if i = c then key l else key i) :
    (t.prune l).Placed key' bit P d := by
  induction t generalizing P d with
  | nil => trivial
  | node i sub ih =>
    obtain ⟨hni, hsub, hdis⟩ := nodup_node hnd
    have hrest : ∀ b, ∀ j ∈ (sub b).refs, j ≠ l → key' j = if j = c then key l else key j :=
      fun b j hj => hnew j (mem_refs_node.mpr (.inr ⟨b, hj⟩))
    have hsame : ∀ b, c ∉ (sub b).refs →
        ((sub b).prune l).Placed key' bit (fun k => P k ∧ bit k d = b) (d + 1) := by
      refine fun b hcb => (h.2 b).prune.congr fun j hj => ?_
      obtain ⟨hj, hjl⟩ := mem_refs_of_prune hj
      have hjc : j ≠ c := fun heq => hcb (heq ▸ hj)
      rw [hrest b j hj hjl, if_neg hjc]
    rw [RefTree.prune]
    split
    case isTrue => trivial
    case isFalse hne =>
      have htop := hnew i (mem_refs_node.mpr (.inl rfl)) hne
      rcases hbelow with ⟨rfl, hl⟩ | ⟨b, hb⟩
      · refine ⟨?_, fun b => hsame b (hni b)⟩
        rw [htop, if_pos rfl]
        exact h.of_mem hl
      · have hic : i ≠ c := fun heq => hni b (heq ▸ hb.mem_top)
        refine ⟨?_, fun e => ?_⟩
        · rw [htop, if_neg hic]
          exact h.1
        · by_cases heb : e = b
          · subst e
            exact ih b (h.2 b) (hsub b) hb (hrest b)
          · exact hsame e fun hce => heb (hdis e b c hce hb.mem_top)

end Change

section Find
variable [DecidableEq Key]

/-- The walk to a key: where it ends, the cell before that and the level that was reached. -/
def find (null : Ref) (key : Ref → Key) (bit : Key → Nat → Bool) (k : Key) :
    Nat → Ref → RefTree Ref → Ref × Ref × Nat
  | d, p, nil => (null, p, d)
  | d, p, node i sub =>
    if k = key i then (i, p, d) else (sub (bit k d)).find null key bit k (d + 1) i

variable {null : Ref} {link : Bool → Ref → Ref} {key key' : Ref → Key} {bit : Key → Nat → Bool}
variable {P : Key → Prop} {k : Key} {d e : Nat} {p q j : Ref}

theorem find_found (h : t.Linked null link) (hfind : t.find null key bit k d p = (c, q, e))
    (hc : c ≠ null) :
    c ∈ t.refs ∧ key c = k ∧ (c = t.root null ∧ q = p ∨ q ∈ t.refs ∧ ∃ b, link b q = c) := by
  induction t generalizing d p with
  | nil =>
    cases hfind
    exact absurd rfl hc
  | node i sub ih =>
    rw [find] at hfind
    split at hfind
    case isTrue hk =>
      cases hfind
      exact ⟨mem_refs_node.mpr (.inl rfl), hk.symm, .inl ⟨rfl, rfl⟩⟩
    case isFalse =>
      obtain ⟨hmem, hkey, hparent⟩ := ih (bit k d) (h.2 _).2 hfind
      refine ⟨mem_refs_node.mpr (.inr ⟨_, hmem⟩), hkey, .inr ?_⟩
      rcases hparent with ⟨hroot, rfl⟩ | ⟨hq, hlink⟩
      · exact ⟨mem_refs_node.mpr (.inl rfl), bit k d, (h.2 _).1.trans hroot.symm⟩
      · exact ⟨mem_refs_node.mpr (.inr ⟨_, hq⟩), hlink⟩

/-- A walk that ends at `null` has passed every cell where the key could be. -/
theorem Placed.not_mem_of_find (hL : t.Linked null link) (h : t.Placed key bit P d) (hk : P k)
    (hfind : t.find null key bit k d p = (null, q, e)) : ∀ i ∈ t.refs, key i ≠ k := by
  induction t generalizing P d p with
  | nil => exact nofun
  | node i sub ih =>
    rw [find] at hfind
    split at hfind
    case isTrue =>
      cases hfind
      exact absurd rfl hL.1
    case isFalse hne =>
      intro m hm hkey
      rcases mem_refs_node.mp hm with rfl | ⟨b, hm⟩
      · exact hne hkey.symm
      · have hb : bit k d = b := hkey ▸ ((h.2 b).of_mem hm).2
        subst b
        exact ih _ (hL.2 _).2 (h.2 _) ⟨hk, rfl⟩ hfind m hm hkey

/-- Where a walk that ends at `null` comes from: the last cell has no link on the side of the key,
and up to its level its own key has the bits of `k`. -/
theorem find_absent (hL : t.Linked null link) (h : t.Placed key bit P d) (hne : t ≠ nil)
    (hfind : t.find null key bit k d p = (null, q, e)) :
    q ∈ t.refs ∧ d < e ∧ link (bit k (e - 1)) q = null ∧ key q ≠ k ∧
      ∀ n, d ≤ n → n + 1 < e → bit (key q) n = bit k n := by
  induction t generalizing P d p with
  | nil => exact absurd rfl hne
  | node i sub ih =>
    rw [find] at hfind
    split at hfind
    case isTrue =>
      cases hfind
      exact absurd rfl hL.1
    case isFalse hki =>
      by_cases hnil : sub (bit k d) = nil
      · rw [hnil, find] at hfind
        cases hfind
        refine ⟨mem_refs_node.mpr (.inl rfl), Nat.lt_succ_self d, ?_, Ne.symm hki,
          fun n hn hlt => by omega⟩
        rw [Nat.add_sub_cancel, (hL.2 _).1, hnil]
        rfl
      · obtain ⟨hq, hlt, hnull, hkey, hbits⟩ := ih _ (hL.2 _).2 (h.2 _) hnil hfind
        refine ⟨mem_refs_node.mpr (.inr ⟨_, hq⟩), by omega, hnull, hkey, fun n hn hlt' => ?_⟩
        rcases Nat.lt_or_ge d n with hdn | hdn
        · exact hbits n hdn hlt'
        · have hnd : n = d := by omega
          subst n
          exact ((h.2 _).of_mem hq).2

/-- The new leaf at the end of the walk to its key keeps the keys placed. -/
theorem Placed.plant [DecidableEq Ref] (hL : t.Linked null link) (hnd : t.refs.Nodup)
    (h : t.Placed key bit P d) (hne : t ≠ nil) (hk : P k)
    (hfind : t.find null key bit k d p = (null, q, e)) (hj : key' j = k)
    (hold : ∀ i ∈ t.refs, key' i = key i) : (t.plant q (bit k (e - 1)) j).Placed key' bit P d := by
  induction t generalizing P d p with
  | nil => exact absurd rfl hne
  | node i sub ih =>
    obtain ⟨hni, hsub, hdis⟩ := nodup_node hnd
    have hsame : ∀ b, (sub b).Placed key' bit (fun k => P k ∧ bit k d = b) (d + 1) := fun b =>
      (h.2 b).congr fun i hi => hold i (mem_refs_node.mpr (.inr ⟨b, hi⟩))
    have htop : P (key' i) := by
      rw [hold i (mem_refs_node.mpr (.inl rfl))]
      exact h.1
    rw [find] at hfind
    split at hfind
    case isTrue =>
      cases hfind
      exact absurd rfl hL.1
    case isFalse hki =>
      by_cases hnil : sub (bit k d) = nil
      · rw [hnil, find] at hfind
        cases hfind
        rw [RefTree.plant, if_pos rfl, Nat.add_sub_cancel]
        refine ⟨htop, fun b => ?_⟩
        by_cases hb : b = bit k d
        · subst b
          rw [Function.update_self]
          exact ⟨by rw [hj]; exact ⟨hk, rfl⟩, fun _ => trivial⟩
        · rw [Function.update_of_ne hb]
          exact hsame b
      · have hq := (find_absent (hL.2 _).2 (h.2 _) hnil hfind).1
        have hiq : i ≠ q := fun heq => hni (bit k d) (heq ▸ hq)
        rw [RefTree.plant, if_neg hiq]
        refine ⟨htop, fun b => ?_⟩
        by_cases hb : b = bit k d
        · subst b
          exact ih _ (hL.2 _).2 (hsub _) (h.2 _) hnil ⟨hk, rfl⟩ hfind
            fun i hi => hold i (mem_refs_node.mpr (.inr ⟨_, hi⟩))
        · have hkept : (sub b).plant q (bit k (e - 1)) j = sub b :=
            plant_of_not_mem fun hmem => hb (hdis b _ q hmem hq)
          simpa only [hkept] using hsame b

end Find

/-! ## Paths -/

/-- The reference at the end of a path from the root. -/
def atPath : RefTree Ref → List Bool → Option Ref
  | nil, _ => none
  | node i _, [] => some i
  | node _ sub, b :: path => (sub b).atPath path

def follow [DecidableEq Ref] (null : Ref) (link : Bool → Ref → Ref) (i : Ref) (path : List Bool) :
    Ref :=
  path.foldl (fun j b => if j = null then null else link b j) i

section Paths
variable {path path' : List Bool}

theorem mem_refs_of_atPath (h : t.atPath path = some i) : i ∈ t.refs := by
  induction t generalizing path with
  | nil => cases h
  | node j sub ih =>
    cases path with
    | nil =>
      cases h
      exact mem_refs_node.mpr (.inl rfl)
    | cons b path => exact mem_refs_node.mpr (.inr ⟨b, ih b h⟩)

theorem exists_atPath (h : i ∈ t.refs) : ∃ path, t.atPath path = some i := by
  induction t with
  | nil => cases h
  | node j sub ih =>
    rcases mem_refs_node.mp h with rfl | ⟨b, hb⟩
    · exact ⟨[], rfl⟩
    · obtain ⟨path, hpath⟩ := ih b hb
      exact ⟨b :: path, hpath⟩

theorem atPath_unique (hnd : t.refs.Nodup) (h : t.atPath path = some i)
    (h' : t.atPath path' = some i) : path = path' := by
  induction t generalizing path path' with
  | nil => cases h
  | node j sub ih =>
    obtain ⟨hj, hsub, hdis⟩ := nodup_node hnd
    cases path with
    | nil =>
      cases path' with
      | nil => rfl
      | cons b' path' =>
        cases h
        exact absurd (mem_refs_of_atPath (t := sub b') h') (hj b')
    | cons b path =>
      cases path' with
      | nil =>
        cases h'
        exact absurd (mem_refs_of_atPath (t := sub b) h) (hj b)
      | cons b' path' =>
        obtain rfl : b = b' := hdis b b' i (mem_refs_of_atPath h) (mem_refs_of_atPath h')
        rw [ih b (hsub b) h h']

theorem exists_atPath_take (h : t.atPath path = some i) (n : Nat) :
    ∃ j, t.atPath (path.take n) = some j := by
  induction t generalizing path n with
  | nil => cases h
  | node k sub ih =>
    cases path with
    | nil => exact ⟨k, by rw [take_nil]; rfl⟩
    | cons b path =>
      cases n with
      | zero => exact ⟨k, rfl⟩
      | succ n => exact ih b h n

theorem Placed.getElem?_atPath {key : Ref → Key} {bit : Key → Nat → Bool} {P : Key → Prop}
    {d n : Nat} (h : t.Placed key bit P d) (hpath : t.atPath path = some i)
    (hn : n < path.length) : path[n]? = some (bit (key i) (d + n)) := by
  induction t generalizing path P d n with
  | nil => cases hpath
  | node k sub ih =>
    cases path with
    | nil => cases hn
    | cons b path =>
      cases n with
      | zero => exact congrArg some (Placed.of_mem (h.2 b) (mem_refs_of_atPath hpath)).2.symm
      | succ n =>
        rw [List.getElem?_cons_succ, ih b (h.2 b) hpath (Nat.lt_of_succ_lt_succ hn)]
        rw [Nat.add_right_comm, Nat.add_assoc]

end Paths

section Follow
variable [DecidableEq Ref] {null : Ref} {link : Bool → Ref → Ref}

theorem follow_null (path : List Bool) : follow null link null path = null := by
  induction path with
  | nil => rfl
  | cons b path ih =>
    change follow null link (if null = null then null else link b null) path = null
    rw [if_pos rfl]
    exact ih

theorem follow_concat {i : Ref} {path : List Bool} (b : Bool) (h : follow null link i path ≠ null) :
    follow null link i (path ++ [b]) = link b (follow null link i path) := by
  unfold follow at h ⊢
  rw [foldl_append, foldl_cons, foldl_nil, if_neg h]

theorem Linked.follow_root (h : t.Linked null link) (path : List Bool) :
    follow null link (t.root null) path = (t.atPath path).getD null := by
  induction t generalizing path with
  | nil => exact follow_null path
  | node i sub ih =>
    cases path with
    | nil => rfl
    | cons b path =>
      change follow null link (if i = null then null else link b i) path = _
      rw [if_neg h.1, (h.2 b).1]
      exact ih b (h.2 b).2 path

theorem Linked.follow_eq_iff (h : t.Linked null link) {path : List Bool} {i : Ref}
    (hi : i ≠ null) : follow null link (t.root null) path = i ↔ t.atPath path = some i := by
  rw [h.follow_root]
  cases hpath : t.atPath path with
  | none => exact ⟨fun heq => absurd heq.symm hi, fun heq => by cases heq⟩
  | some j => exact Option.some_inj.symm

end Follow

end RefTree

/-- The references along one link, from the first to the last. -/
def List.LinkedBy (null : Ref) (next : Ref → Ref) : List Ref → Prop
  | [] => True
  | i :: is => i ≠ null ∧ next i = is.headD null ∧ is.LinkedBy null next

theorem List.LinkedBy.congr {null : Ref} {next next' : Ref → Ref} {is : List Ref}
    (h : is.LinkedBy null next) (heq : ∀ i ∈ is, next' i = next i) : is.LinkedBy null next' := by
  induction is with
  | nil => trivial
  | cons i is ih =>
    refine ⟨h.1, ?_, ih h.2.2 fun m hm => heq m (mem_cons_of_mem i hm)⟩
    rw [heq i mem_cons_self]
    exact h.2.1

/-- The reference at place `n` of the list that starts at `i`. -/
def listAt [DecidableEq Ref] (null : Ref) (next : Ref → Ref) (i : Ref) : Nat → Ref
  | 0 => i
  | n + 1 => if i = null then null else listAt null next (next i) n

section ListAt
variable [DecidableEq Ref] {null : Ref} {next : Ref → Ref} {is : List Ref}

theorem listAt_null (n : Nat) : listAt null next null n = null := by
  cases n with
  | zero => rfl
  | succ n => exact if_pos rfl

theorem List.LinkedBy.listAt_head (h : is.LinkedBy null next) (n : Nat) :
    listAt null next (is.headD null) n = is[n]?.getD null := by
  induction is generalizing n with
  | nil => exact listAt_null n
  | cons i is ih =>
    cases n with
    | zero => rfl
    | succ n =>
      rw [headD_cons, listAt, if_neg h.1, h.2.1, ih h.2.2, List.getElem?_cons_succ]

theorem List.LinkedBy.listAt_eq_iff (h : is.LinkedBy null next) {n : Nat} {i : Ref}
    (hi : i ≠ null) : listAt null next (is.headD null) n = i ↔ is[n]? = some i := by
  rw [h.listAt_head]
  cases hn : is[n]? with
  | none => exact ⟨fun heq => absurd heq.symm hi, fun heq => by cases heq⟩
  | some j => exact Option.some_inj.symm

end ListAt
