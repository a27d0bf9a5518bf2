import LaunchManager.Configuration.PreprocessDefaults

/-!
# The script computes the merged configuration

Every step of `preprocess_defaults` on the heap, related to what it computes on nested
dictionaries. What a step takes from the configuration's copy becomes a part of its result; the
built-in and the merged defaults are only read.
-/

namespace LaunchManager

set_option autoImplicit false

open DictTree DictHeap DictHeap.Assertion

namespace Preprocess

variable {P D F : Assertion String Scalar} {a b c d m : Value} {o : Object String Scalar}
variable {t : Tree String Scalar} {ts ta tb md own : Section} {k : String}
variable {β γ : Type} {f : β → Script γ} {R : γ → Assertion String Scalar}

/-! ### Merging -/

/-- What a call of `dict_merge` promises for a dictionary on top that is no deeper than `fuel`. -/
def MergesWithin (fuel : Nat) (merger : Value → Value → Script Value) : Prop :=
  ∀ {P : Assertion String Scalar} {a b : Value} {ta tb : Section}, P ≤ cell a (.dict ta) →
    (Tree.dict tb).depth ≤ fuel → Spec (cell b (.dict tb) * P) (merger a b) fun c =>
      cell c (.dict (merge isNotMerging ta tb)) * P

theorem spec_mergeEntry {fuel : Nat} {merger : Value → Value → Script Value}
    (hmerger : MergesWithin fuel merger) (ht : t.depth ≤ fuel) (d c : Value) (ts : Section)
    (k : String) : Spec (cell d (.dict ts) * cell c t) (mergeEntry merger d (k, c)) fun _ =>
      cell d (.dict (Assoc.set ts k (overlay isNotMerging k (ts.lookup k) t))) := by
  refine Spec.open_dict fun o => ?_
  have hassign := Spec.pre (mul_le_mul_left (object_entries_le d o ts) (cell c t))
    (Spec.setItem d ts k c t)
  refine Spec.readItem? sep_le_left (fun hk => ?_) fun s a hk _ hold => ?_
  · rw [hk, overlay_none]
    exact hassign
  · rw [hk]
    cases s with
    | leaf x =>
      refine Spec.fact (fun hh => (hold (sep_le_right (sep_le_left hh))).eq_leaf) ?_
      rintro rfl
      have hover : overlay isNotMerging k (some (.leaf x)) t = t := by
        cases t with
        | leaf y => rw [overlay]
        | dict tb => unfold overlay; rfl
      rw [hover]
      exact hassign
    | dict ta =>
      refine Spec.fact (fun hh => (hold (sep_le_right (sep_le_left hh))).exists_ref) ?_
      rintro ⟨ra, rfl⟩
      cases t with
      | leaf y =>
        refine Spec.fact (fun hh => (sep_le_right hh).eq_leaf) ?_
        rintro rfl
        rw [overlay]
        exact hassign
      | dict tb =>
        refine Spec.fact (fun hh => (sep_le_right hh).exists_ref) ?_
        rintro ⟨rb, rfl⟩
        by_cases hwhole : isNotMerging k = true
        · rw [overlay_of_whole hwhole]
          simpa only [hwhole, if_true] using hassign
        · have hwhole' : isNotMerging k = false := by simpa using hwhole
          rw [overlay_dict hwhole']
          simp only [hwhole', Bool.false_eq_true, if_false]
          refine Spec.bind (Spec.pre (mul_comm _ _).le
            (hmerger (sep_le_right.trans hold) ht)) fun c' => ?_
          refine Spec.pre ?_ (Spec.setItem d ts k c' _)
          rw [mul_comm]
          gcongr
          exact object_entries_le d o ts

theorem merge_eq_foldl (a b : Section) : merge isNotMerging a b = b.foldl (fun a e =>
      Assoc.set a e.1 (overlay isNotMerging e.1 (a.lookup e.1) e.2)) a := by
  induction b generalizing a with
  | nil => rw [merge, List.foldl_nil]
  | cons e b ih => rw [merge, ih, List.foldl_cons]

theorem depth_le_of_mem {e : String × Tree String Scalar} (he : e ∈ ts) :
    e.2.depth ≤ depthAll ts := by
  induction ts with
  | nil => cases he
  | cons e' ts ih =>
    rw [depthAll]
    obtain rfl | he := List.mem_cons.mp he
    · exact le_max_left _ _
    · exact (ih he).trans (le_max_right _ _)

theorem mergesWithin_dictMergeWith (fuel : Nat) : MergesWithin fuel (dictMergeWith fuel) := by
  induction fuel with
  | zero =>
    intro P a b ta tb _ hdepth
    simp [Tree.depth] at hdepth
  | succ fuel ih =>
    intro P a b ta tb ha hdepth
    rw [Tree.depth, Nat.add_le_add_iff_right] at hdepth
    refine Spec.bind (Spec.deepcopy (sep_le_right.trans ha)) fun a' => ?_
    rw [mul_assoc]
    refine Spec.open_dict fun o => Spec.items (sep_le_left.trans sep_le_left) ?_
    have hloop := Spec.forM o tb (I := fun ts => cell a' (.dict ts))
      (N := fun ts e => Assoc.set ts e.1 (overlay isNotMerging e.1 (ts.lookup e.1) e.2))
      (fun ts k c t ht => spec_mergeEntry ih ((depth_le_of_mem ht).trans hdepth) a' c ts k) ta
    refine Spec.step hloop (F := object b o * P) (Eq.le (by ac_rfl)) fun _ => Spec.pure ?_
    rw [merge_eq_foldl]
    exact mul_le_mul_right sep_le_right _

theorem spec_dictMerge (ha : P ≤ cell a (.dict ta)) :
    Spec (cell b (.dict tb) * P) (dictMerge a b) fun c =>
      cell c (.dict (merge isNotMerging ta tb)) * P := by
  intro h S hS hh
  have hcard : S.card ≤ h.length := by simpa using Finset.card_le_card hS
  exact mergesWithin_dictMergeWith h.length ha ((sep_le_left hh).depth_le.trans hcard) hS hh

/-! ### Steps that fill a dictionary

What a step takes stands first, then what it leaves alone, then the dictionary it fills. -/

theorem spec_setItem : Spec (cell c t * F * cell d (.dict ts)) (setItem d k c) fun _ =>
    F * cell d (.dict (Assoc.set ts k t)) :=
  Spec.last (Spec.setItem d ts k c t) (Eq.le (by ac_rfl)) fun _ => (mul_comm _ F).le

theorem spec_setMerged (ha : F ≤ cell a (.dict ta)) :
    Spec (cell b (.dict tb) * F * cell d (.dict ts)) (dictMerge a b >>= setItem d k) fun _ =>
      F * cell d (.dict (Assoc.set ts k (.dict (merge isNotMerging ta tb)))) :=
  Spec.bind (spec_dictMerge ha).frame fun _ => spec_setItem

theorem sectionOf_of_lookup (hk : ts.lookup k = some (.dict ta)) : sectionOf ts k = ta := by
  simp [sectionOf, hk]

theorem spec_getOr {f : Value → Script γ} {v : Option (Tree String Scalar)} (hF : F ≤ object c o)
    (fallback : Scalar) (hf : ∀ b, Spec (cell b (v.getD (.leaf fallback)) * F * D) (f b) R) :
    Spec (held (o.lookup k) v * F * D) (getOr c k fallback >>= f) R := by
  rw [getOr, bind_assoc]
  refine Spec.getItem? (sep_le_left.trans (sep_le_right.trans hF)) ?_
  rw [pure_bind]
  refine Spec.pre ?_ (hf _)
  gcongr
  exact held_getD _ _ _

theorem spec_getOrEmpty {f : Value → Script γ} (hF : F ≤ object c o)
    (hdict : ∀ t, ts.lookup k = some t → t.kind = .dict)
    (hf : ∀ b, Spec (cell b (.dict (sectionOf ts k)) * F * D) (f b) R) :
    Spec (held (o.lookup k) (ts.lookup k) * F * D) (getOrEmpty c k >>= f) R := by
  rw [getOrEmpty, bind_assoc]
  refine Spec.takeItem? hF (fun hk => ?_) fun t b hk => ?_
  · refine Spec.alloc fun b => Spec.pre ?_ (hf b)
    have hnew : object b [] ≤ cell b (.dict (sectionOf ts k)) := by
      simpa [sectionOf, hk] using object_entries_le b [] []
    rw [mul_assoc (cell b _)]
    gcongr
  · cases t with
    | leaf x => exact absurd (hdict _ hk) nofun
    | dict e =>
      rw [← sectionOf_of_lookup hk]
      exact hf b

theorem spec_getItem {f : Value → Script γ} (hP : P ≤ object m o * entries o md)
    (hk : md.lookup k = some t) (hf : ∀ a, entries o md ≤ cell a t → Spec P (f a) R) :
    Spec P (getItem m k >>= f) R :=
  Spec.lookup_some (hP.trans sep_le_right) hk fun a ha hle =>
    Spec.getItem (hP.trans sep_le_left) ha (hf a hle)

/-! ### Components -/

theorem adjust_of_lookup (hk : ts.lookup k = some (.dict ta)) (f : Section → Section) :
    adjust ts k f = Assoc.set ts k (.dict (f ta)) := by
  simp [adjust, hk]

theorem lookup_adjust_of_ne {k' : String} (hne : k' ≠ k) (f : Section → Section) :
    (adjust ts k f).lookup k' = ts.lookup k' := by
  rw [adjust]
  split
  · exact Assoc.lookup_set_of_ne _ hne _
  · rfl

theorem spec_adjust {read : Script Value} {g : Value → Script Unit} {f : Section → Section}
    (hk : ts.lookup k = some (.dict ta))
    (hread : ∀ {P o v R}, P ≤ object c o → o.lookup k = some v → Spec P (g v) R →
      Spec P (read >>= g) R)
    (hg : ∀ v, Spec (cell v (.dict ta)) (g v) fun _ => cell v (.dict (f ta))) :
    Spec (cell c (.dict ts)) (read >>= g) fun _ => cell c (.dict (adjust ts k f)) := by
  rw [← mul_one (cell c (.dict ts))]
  refine Spec.open_dict fun o => Spec.lookup_some (sep_le_left.trans sep_le_right) hk
    fun v hv _ => hread (sep_le_left.trans sep_le_left) hv ?_
  refine Spec.fact (fun hh => sameKeys_of_entries (sep_le_right (sep_le_left hh))) fun hkeys => ?_
  obtain ⟨F, hF, hset⟩ := entries_focus hkeys hv hk
  refine Spec.last (hg v) (F := object c o * F) ?_ fun _ => ?_
  · calc object c o * entries o ts * 1 ≤ object c o * (cell v (.dict ta) * F) * 1 := by gcongr
      _ = _ := by rw [mul_one, mul_left_comm]
  · have hset := hset v (.dict (f ta))
    rw [Assoc.set_of_lookup hv] at hset
    rw [adjust_of_lookup hk, mul_left_comm]
    refine le_trans ?_ (object_entries_le c o _)
    gcongr

theorem entries_leaves (l : List (String × Scalar)) :
    1 ≤ entries (l.map fun e => (e.1, .leaf e.2)) (l.map fun e => (e.1, .leaf e.2)) := by
  induction l with
  | nil => exact entries_nil.ge
  | cons e l ih => simpa [entries_cons] using ih

theorem spec_applyFileStateDefaults (d : Value) (ts : Section) :
    Spec (cell d (.dict ts)) (applyFileStateDefaults d) fun _ =>
      cell d (.dict (withFileState ts)) := by
  rw [← mul_one (cell d (.dict ts))]
  refine Spec.open_dict fun o => ?_
  rw [mul_one]
  have hentries : object d o * entries o ts ≤ entries o ts := sep_le_right
  refine Spec.readItem? le_rfl (fun hk => ?_) fun t v hk hv hold => ?_
  · rw [withFileState, adjust, hk]
    exact Spec.pure (object_entries_le d o ts)
  · cases t with
    | leaf x =>
      refine Spec.fact (fun hh => (hold (hentries hh)).eq_leaf) ?_
      rintro rfl
      rw [withFileState, adjust, hk]
      exact Spec.pure (object_entries_le d o ts)
    | dict fs =>
      refine Spec.fact (fun hh => (hold (hentries hh)).exists_ref) ?_
      rintro ⟨r, rfl⟩
      refine Spec.fact (fun hh => sameKeys_of_entries (hentries hh)) fun hkeys => ?_
      obtain ⟨F, hF, hset⟩ := entries_focus hkeys hv hk
      refine Spec.pre (A := cell (.ref r) (.dict fs) * (object d o * F)) ?_ ?_
      · rw [mul_left_comm]
        gcongr
      refine Spec.open_dict fun fo => Spec.load (sep_le_left.trans sep_le_left) ?_
      refine Spec.alloc fun v => ?_
      set merged : Object String Scalar :=
        Assoc.update (fileStateDefaults.map fun e => (e.1, .leaf e.2)) fo
      have hmerged : object v merged * entries fo fs ≤ cell v (.dict
          (Assoc.update (fileStateDefaults.map fun e => (e.1, .leaf e.2)) fs)) := by
        refine le_trans ?_ (object_entries_le v merged _)
        gcongr
        calc entries fo fs = 1 * entries fo fs := (one_mul _).symm
          _ ≤ _ := mul_le_mul_left (entries_leaves fileStateDefaults) _
          _ ≤ _ := entries_update _ fo _ fs
      refine Spec.last (Spec.update d o (Assoc.set · "file_state" v))
        (F := object v merged * entries fo fs * F) ?_ fun _ => ?_
      · calc object v merged * (object (.ref r) fo * entries fo fs * (object d o * F))
            = object d o * (object v merged * entries fo fs * F) * object (.ref r) fo := by ac_rfl
          _ ≤ _ := sep_le_left
      · rw [withFileState, adjust_of_lookup hk]
        refine le_trans ?_ (object_entries_le d (Assoc.set o "file_state" v) _)
        gcongr
        exact (mul_le_mul_left hmerged F).trans (hset v _)

theorem spec_removeAliveSupervision (d : Value) (ts : Section) :
    Spec (cell d (.dict ts)) (removeAliveSupervision d) fun _ =>
      cell d (.dict (withSupervision ts)) := by
  rw [removeAliveSupervision, getOr, bind_assoc]
  refine Spec.read_dict le_rfl fun o => Spec.getItem? (inf_le_right.trans sep_le_left) ?_
  rw [pure_bind]
  have hvalue := (entries_le_held o ts "application_type").trans (held_getD _ _ .null)
  have herase : isSupervisedType ((ts.lookup "application_type").map Tree.kind) = false →
      Spec (cell d (.dict ts) ⊓ (object d o * entries o ts))
        (eraseItem d "alive_supervision") fun _ => cell d (.dict (withSupervision ts)) := by
    intro hsup
    rw [withSupervision, hsup]
    exact Spec.pre inf_le_left (Spec.eraseItem d ts "alive_supervision")
  cases ht : (ts.lookup "application_type").getD (.leaf .null) with
  | leaf x =>
    rw [ht] at hvalue
    refine Spec.fact (fun hh => (hvalue (sep_le_right hh.2)).eq_leaf) fun hx => ?_
    have hsup : isSupervisedType ((ts.lookup "application_type").map Tree.kind) =
        isSupervised x := by
      cases hk : ts.lookup "application_type" with
      | none | some t =>
        rw [hk] at ht
        cases ht
        rfl
    rw [hx]
    by_cases hyes : isSupervised x = true
    · rw [withSupervision, hsup]
      simp only [hyes, if_true]
      exact Spec.pure inf_le_left
    · simp only [hyes, Bool.false_eq_true, if_false]
      exact herase (by simpa [hsup] using hyes)
  | dict e =>
    rw [ht] at hvalue
    refine Spec.fact (fun hh => (hvalue (sep_le_right hh.2)).exists_ref) ?_
    rintro ⟨r, hr⟩
    rw [hr]
    refine herase ?_
    cases hk : ts.lookup "application_type" with
    | none =>
      rw [hk] at ht
      cases ht
    | some t =>
      rw [hk] at ht
      cases ht
      rfl

theorem spec_finishProperties (hready : ∃ e, ts.lookup "ready_condition" = some (.dict e))
    (hprofile : ∃ e, ts.lookup "application_profile" = some (.dict e)) (d : Value) :
    Spec (cell d (.dict ts)) (finishProperties d) fun _ => cell d (.dict (finished ts)) := by
  obtain ⟨ready, hready⟩ := hready
  obtain ⟨profile, hprofile⟩ := hprofile
  have hprofile' : (adjust ts "ready_condition" withFileState).lookup "application_profile" =
      some (.dict profile) := by
    rw [lookup_adjust_of_ne (by decide), hprofile]
  rw [finishProperties, ← bind_assoc]
  refine Spec.bind (spec_adjust (f := withFileState) hready (fun hP hv hg => ?_)
    fun v => spec_applyFileStateDefaults v ready) fun _ => ?_
  · rw [getOrEmpty, bind_assoc]
    refine Spec.getItem? hP ?_
    rw [hv]
    exact hg
  · exact spec_adjust (f := withSupervision) hprofile' Spec.getItem
      fun v => spec_removeAliveSupervision v profile

/-- What the merged defaults need for the components: each section is there, and so are the
dictionaries that the last steps look into. -/
structure SuitsComponents (mergedDefaults : Section) : Prop where
  properties : ∃ d, mergedDefaults.lookup "component_properties" = some (.dict d)
  deployment : ∃ d, mergedDefaults.lookup "deployment_config" = some (.dict d)

/-- What a component's entry in the configuration needs. -/
structure SuitsDefaults (mergedDefaults own : Section) : Prop where
  properties : ∀ t, own.lookup "component_properties" = some t → t.kind = .dict
  deployment : ∀ t, own.lookup "deployment_config" = some t → t.kind = .dict
  ready : ∃ d, (laidOver mergedDefaults own "component_properties").lookup "ready_condition" =
    some (.dict d)
  profile : ∃ d, (laidOver mergedDefaults own "component_properties").lookup
    "application_profile" = some (.dict d)

def componentsIn (config : Section) : Section := sectionOf config "components"

/-- Every component has `component_properties`, be they empty. -/
def HasProperties (config : Section) : Prop :=
  ∀ e ∈ componentsIn config, (entriesOf e.2).lookup "component_properties" ≠ none

instance (config : Section) : Decidable (HasProperties config) :=
  inferInstanceAs (Decidable (∀ e ∈ componentsIn config,
    ¬ (entriesOf e.2).lookup "component_properties" = none))

variable {om : Object String Scalar}

theorem spec_fillComponent (hmd : P ≤ object m om * entries om md)
    (hsec : SuitsComponents md) (hcfg : SuitsDefaults md own)
    (hprops : own.lookup "component_properties" ≠ none) (d c : Value) :
    Spec (cell d (.dict []) * (cell c (.dict own) * P)) (fillComponent m d c) fun _ =>
      cell d (.dict (componentOf md own)) * P := by
  obtain ⟨mcp, hmcp⟩ := hsec.properties
  obtain ⟨mdc, hmdc⟩ := hsec.deployment
  obtain ⟨ccp, hccp⟩ : ∃ d, own.lookup "component_properties" = some (.dict d) := by
    obtain ⟨t, ht⟩ := Option.ne_none_iff_exists'.mp hprops
    cases t with
    | leaf x => exact absurd (hcfg.properties _ ht) nofun
    | dict d => exact ⟨d, ht⟩
  rw [mul_comm]
  refine Spec.open_keys ["description", "component_properties", "deployment_config"]
    (by decide) fun o => ?_
  simp only [taken, hccp]
  have hP : object c o * P ≤ object m om * entries om md := sep_le_right.trans hmd
  -- The description.
  refine spec_getOr (sep_le_right.trans (sep_le_right.trans sep_le_left)) (.str "") fun _ => ?_
  refine Spec.bind spec_setItem fun _ => ?_
  -- The `component_properties`.
  refine spec_getItem (sep_le_left.trans (sep_le_right.trans (sep_le_right.trans hP))) hmcp
    fun a ha => spec_getOr (sep_le_right.trans sep_le_left) .null fun b => ?_
  rw [← bind_assoc]
  refine Spec.bind (spec_setMerged (sep_le_right.trans (hP.trans (sep_le_right.trans ha))))
    fun _ => ?_
  -- The `deployment_config`.
  refine spec_getItem (sep_le_left.trans (sep_le_right.trans hP)) hmdc fun a ha =>
    spec_getOrEmpty sep_le_left hcfg.deployment fun b => ?_
  rw [← bind_assoc]
  refine Spec.bind (spec_setMerged (hP.trans (sep_le_right.trans ha))) fun _ => ?_
  -- The last steps.
  have hlaid : laidOver md own "component_properties" = merge isNotMerging mcp ccp := by
    rw [laidOver, sectionOf_of_lookup hmcp, sectionOf_of_lookup hccp]
  have hready := hcfg.ready
  have hprofile := hcfg.profile
  rw [hlaid] at hready hprofile
  refine Spec.last (spec_adjust (k := "component_properties") (f := finished) rfl Spec.getItem
    fun v => spec_finishProperties hready hprofile v) (mul_comm _ _).le fun _ => ?_
  rw [adjust_of_lookup rfl, componentOf, hlaid, laidOver, sectionOf_of_lookup hmdc]
  exact mul_le_mul_right sep_le_right _

theorem dictMerge_leaf (a : Value) (x : Scalar) (h : Heap String Scalar) :
    ∃ e, dictMerge a (.leaf x) h = .error e := by
  show ∃ e, dictMergeWith h.length a (.leaf x) h = .error e
  cases h.length with
  | zero => exact ⟨_, rfl⟩
  | succ fuel =>
    show ∃ e, (deepcopy a h >>= fun p =>
      dictMergeRecursive (dictMergeWith fuel) p.1 (.leaf x) p.2) = .error e
    cases deepcopy a h with
    | error e => exact ⟨e, rfl⟩
    | ok p => exact ⟨_, rfl⟩

/-- A component without `component_properties` stops the script. -/
theorem fails_fillComponent (hmd : P ≤ object m om * entries om md)
    (hsec : SuitsComponents md) (hnone : own.lookup "component_properties" = none) (d c : Value) :
    Fails (cell d (.dict []) * (cell c (.dict own) * P)) (fillComponent m d c) := by
  obtain ⟨mcp, hmcp⟩ := hsec.properties
  rw [mul_comm]
  refine Spec.open_keys ["description", "component_properties"] (by decide) fun o => ?_
  simp only [taken, hnone]
  have hP : object c o * P ≤ object m om * entries om md := sep_le_right.trans hmd
  refine Fails.after (spec_getOr (sep_le_right.trans sep_le_left) (.str "") fun _ => ?_)
  refine Fails.after (Spec.bind spec_setItem fun _ => ?_)
  refine Fails.after (spec_getItem (sep_le_left.trans (sep_le_right.trans hP)) hmcp fun a _ => ?_)
  refine Fails.after (spec_getOr sep_le_left .null fun b => ?_)
  refine Spec.fact (fun hh => (sep_le_left (sep_le_left hh)).eq_leaf) ?_
  rintro rfl
  exact Fails.bind (Fails.of_error (dictMerge_leaf a .null))

/-! ### The sections of the new configuration -/

section Sections

variable {config : Section}

theorem update_eq_foldl (g : Tree String Scalar → Tree String Scalar) (ts tb : Section) :
    Assoc.update ts (tb.map fun e => (e.1, g e.2)) =
      tb.foldl (fun ts e => Assoc.set ts e.1 (g e.2)) ts := by
  induction tb generalizing ts with
  | nil => rfl
  | cons e tb ih => exact ih _

variable {g : Value → String × Value → Script Unit}

theorem spec_fill (new : Tree String Scalar → Tree String Scalar) (hF : F ≤ object c o)
    (hdict : ∀ t, config.lookup k = some t → t.kind = .dict)
    (hg : ∀ n ts name v t, (name, t) ∈ sectionOf config k →
      Spec (F * cell n (.dict ts) * cell v t) (g n (name, v)) fun _ =>
        F * cell n (.dict (Assoc.set ts name (new t)))) :
    Spec (held (o.lookup k) (config.lookup k) * F * cell d (.dict ts))
      (alloc [] >>= fun n => setItem d k n >>= fun _ => getOrEmpty c k >>= fun v =>
        items v >>= fun es => es.forM (g n)) fun _ =>
      F * cell d (.dict (Assoc.set ts k
        (.dict (Assoc.update [] ((sectionOf config k).map fun e => (e.1, new e.2)))))) := by
  refine Spec.pre (mul_comm _ _).le (Spec.post (Spec.setNew (G := F) fun n => ?_)
    fun _ => (mul_comm _ _).le)
  rw [mul_comm]
  refine spec_getOrEmpty hF hdict fun v => ?_
  rw [mul_assoc]
  refine Spec.open_dict fun es => Spec.items (sep_le_left.trans sep_le_left) ?_
  have hloop := Spec.forM es (sectionOf config k) (I := fun ts => F * cell n (.dict ts))
    (N := fun ts e => Assoc.set ts e.1 (new e.2))
    (fun ts name v t ht => hg n ts name v t ht) []
  refine Spec.last hloop (F := object v es) (Eq.le (by ac_rfl)) fun _ => ?_
  rw [update_eq_foldl, mul_comm F]
  exact sep_le_left

/-- The loop over a section stops at the first entry on which the body fails. -/
theorem fails_fill (bad : Tree String Scalar → Prop)
    (new : Tree String Scalar → Tree String Scalar) (hF : F ≤ object c o)
    (hdict : ∀ t, config.lookup k = some t → t.kind = .dict)
    (hg : ∀ n ts name v t, (name, t) ∈ sectionOf config k → ¬ bad t →
      Spec (F * cell n (.dict ts) * cell v t) (g n (name, v)) fun _ =>
        F * cell n (.dict (Assoc.set ts name (new t))))
    (hbad : ∀ n ts name v t, (name, t) ∈ sectionOf config k → bad t →
      Fails (F * cell n (.dict ts) * cell v t) (g n (name, v)))
    (hex : ∃ e ∈ sectionOf config k, bad e.2) :
    Fails (held (o.lookup k) (config.lookup k) * F * cell d (.dict ts))
      (alloc [] >>= fun n => setItem d k n >>= fun _ => getOrEmpty c k >>= fun v =>
        items v >>= fun es => es.forM (g n)) := by
  refine Spec.pre (mul_comm _ _).le (Fails.setNew fun n => ?_)
  rw [mul_comm]
  refine Fails.after (spec_getOrEmpty hF hdict fun v => ?_)
  rw [mul_assoc]
  refine Spec.open_dict fun es => Fails.after (Spec.items (sep_le_left.trans sep_le_left) ?_)
  have hloop := Fails.forM es (sectionOf config k) (I := fun ts => F * cell n (.dict ts))
    (N := fun ts e => Assoc.set ts e.1 (new e.2)) (fun ts name v t => hg n ts name v t)
    (fun ts name v t => hbad n ts name v t) hex []
  refine Spec.pre ?_ hloop
  calc object v es * entries es (sectionOf config k) * (F * cell n (.dict []))
      = object v es * (F * cell n (.dict []) * entries es (sectionOf config k)) := by ac_rfl
    _ ≤ _ := sep_le_right

theorem spec_preprocessComponent (hmd : F ≤ object m om * entries om md)
    (hsec : SuitsComponents md) (hcfg : SuitsDefaults md own)
    (hprops : own.lookup "component_properties" ≠ none) (n v : Value) (ts : Section)
    (name : String) :
    Spec (F * cell n (.dict ts) * cell v (.dict own)) (preprocessComponent m n name v) fun _ =>
      F * cell n (.dict (Assoc.set ts name (.dict (componentOf md own)))) := by
  refine Spec.pre (A := cell n (.dict ts) * (cell v (.dict own) * F)) (Eq.le (by ac_rfl))
    (Spec.post (Spec.setNew fun d => ?_) fun _ => (mul_comm _ _).le)
  exact spec_fillComponent hmd hsec hcfg hprops d v

theorem spec_preprocessComponents (hF : F ≤ object c o) (hmd : F ≤ object m om * entries om md)
    (hdict : ∀ t, config.lookup "components" = some t → t.kind = .dict) (hsec : SuitsComponents md)
    (hcfg : ∀ e ∈ componentsIn config, ∃ own, e.2 = .dict own ∧ SuitsDefaults md own)
    (hprops : HasProperties config) :
    Spec (held (o.lookup "components") (config.lookup "components") * F * cell d (.dict ts))
      (preprocessComponents m c d) fun _ => F * cell d (.dict (Assoc.set ts "components"
        (.dict (componentsOf md (sectionOf config "components"))))) := by
  refine spec_fill (fun t => .dict (componentOf md (entriesOf t))) hF hdict
    fun n ts name v t ht => ?_
  obtain ⟨own, heq, hown⟩ := hcfg _ ht
  cases heq
  exact spec_preprocessComponent hmd hsec hown (hprops _ ht) n v ts name

theorem fails_preprocessComponents (hF : F ≤ object c o) (hmd : F ≤ object m om * entries om md)
    (hdict : ∀ t, config.lookup "components" = some t → t.kind = .dict) (hsec : SuitsComponents md)
    (hcfg : ∀ e ∈ componentsIn config, ∃ own, e.2 = .dict own ∧ SuitsDefaults md own)
    (hprops : ¬ HasProperties config) :
    Fails (held (o.lookup "components") (config.lookup "components") * F * cell d (.dict ts))
      (preprocessComponents m c d) := by
  refine fails_fill (fun t => (entriesOf t).lookup "component_properties" = none)
    (fun t => .dict (componentOf md (entriesOf t))) hF hdict
    (fun n ts name v t ht hgood => ?_) (fun n ts name v t ht hnone => ?_) ?_
  · obtain ⟨own, heq, hown⟩ := hcfg _ ht
    cases heq
    exact spec_preprocessComponent hmd hsec hown hgood n v ts name
  · obtain ⟨own, heq, -⟩ := hcfg _ ht
    cases heq
    refine Spec.pre (A := cell n (.dict ts) * (cell v (.dict own) * F)) (Eq.le (by ac_rfl))
      (Fails.setNew fun d => ?_)
    exact fails_fillComponent hmd hsec hnone d v
  · simp only [HasProperties, ne_eq, not_forall, Classical.not_not, exists_prop] at hprops
    exact hprops

theorem spec_preprocessRunTargets (hF : F ≤ object c o) (hmd : F ≤ object m om * entries om md)
    (hdict : ∀ t, config.lookup "run_targets" = some t → t.kind = .dict)
    (hk : md.lookup "run_target" = some (.dict ta))
    (hcfg : ∀ e ∈ sectionOf config "run_targets", e.2.kind = .dict) :
    Spec (held (o.lookup "run_targets") (config.lookup "run_targets") * F * cell d (.dict ts))
      (preprocessRunTargets m c d) fun _ => F * cell d (.dict (Assoc.set ts "run_targets"
        (.dict (runTargetsOf md (sectionOf config "run_targets"))))) := by
  refine spec_fill (fun t => .dict (merge isNotMerging (sectionOf md "run_target")
    (entriesOf t))) hF hdict fun n ts name v t ht => ?_
  cases t with
  | leaf x => exact absurd (hcfg _ ht) nofun
  | dict tb =>
    rw [sectionOf_of_lookup hk, mul_comm, ← mul_assoc]
    refine spec_getItem (sep_le_left.trans (sep_le_right.trans hmd)) hk fun a ha => ?_
    exact spec_setMerged (hmd.trans (sep_le_right.trans ha))

theorem spec_preprocessSection (hF : F ≤ object c o) (hmd : F ≤ object m om * entries om md)
    (hdict : ∀ t, config.lookup k = some t → t.kind = .dict) (hk : md.lookup k = some (.dict ta)) :
    Spec (held (o.lookup k) (config.lookup k) * F * cell d (.dict ts))
      (preprocessSection k m c d) fun _ =>
        F * cell d (.dict (Assoc.set ts k (.dict (laidOver md config k)))) := by
  refine spec_getItem (sep_le_left.trans (sep_le_right.trans hmd)) hk fun a ha =>
    spec_getOrEmpty hF hdict fun b => ?_
  rw [laidOver, sectionOf_of_lookup hk]
  exact spec_setMerged (hmd.trans (sep_le_right.trans ha))

theorem spec_preprocessInitialRunTarget (hF : F ≤ object c o) (hm : F ≤ object m om) :
    Spec (held (o.lookup "initial_run_target") (config.lookup "initial_run_target") *
        (held (om.lookup "initial_run_target") (md.lookup "initial_run_target") * F) *
          cell d (.dict ts))
      (preprocessInitialRunTarget m c d) fun _ =>
        F * cell d (.dict (withInitialRunTarget md config ts)) := by
  rw [withInitialRunTarget]
  refine Spec.takeItem? (sep_le_right.trans hF) (fun hk => ?_) fun t v hk => ?_
  · rw [hk]
    refine Spec.takeItem? hm (fun hmd => ?_) fun t v hmd => ?_
    · rw [hmd]
      exact Spec.pure le_rfl
    · rw [hmd]
      exact spec_setItem
  · rw [hk]
    exact Spec.post spec_setItem fun _ => mul_le_mul_left sep_le_right _

theorem entries_fallbackDefaults (timeout : Value) (t : Tree String Scalar) :
    cell timeout t ≤ entries
      [("description", .leaf (.str "")), ("depends_on", .leaf (.list [])),
        ("transition_timeout_ms", timeout)]
      [("description", .leaf (.str "")), ("depends_on", .leaf (.list [])),
        ("transition_timeout_ms", t)] := by
  simp [entries_cons]

theorem spec_preprocessFallbackRunTarget (hF : F ≤ object c o) (hm : F ≤ object m om)
    (hdict : ∀ t, config.lookup "fallback_run_target" = some t → t.kind = .dict)
    (hk : md.lookup "run_target" = some (.dict ta)) :
    Spec (held (o.lookup "fallback_run_target") (config.lookup "fallback_run_target") *
        (held (om.lookup "run_target") (md.lookup "run_target") * F) * cell d (.dict ts))
      (preprocessFallbackRunTarget m c d) fun _ =>
        F * cell d (.dict (withFallbackRunTarget md config ts)) := by
  rw [withFallbackRunTarget]
  refine Spec.takeItem? (sep_le_right.trans hF) (fun hfb => ?_) fun t fallback hfb => ?_
  · rw [hfb]
    exact Spec.pure (mul_le_mul_left sep_le_right _)
  · rw [hfb, hk]
    cases t with
    | leaf x => exact absurd (hdict _ hfb) nofun
    | dict tb =>
      refine Spec.fact (fun hh => exists_of_held (sep_le_left (sep_le_right (sep_le_left hh)))) ?_
      rintro ⟨runTarget, hr⟩
      refine Spec.getItem (sep_le_left.trans (sep_le_right.trans (sep_le_right.trans hm))) hr ?_
      rw [hr, held_some, sectionOf_of_lookup hk]
      -- The timeout is taken from the run target of the defaults.
      refine Spec.pre (A := cell runTarget (.dict ta) * (cell fallback (.dict tb) * F) *
        cell d (.dict ts)) (Eq.le (by ac_rfl)) ?_
      refine Spec.open_keys ["transition_timeout_ms"] (by decide) fun ort => ?_
      simp only [taken]
      refine spec_getOr sep_le_left (.int 3000) fun timeout => Spec.alloc fun below => ?_
      have hbelow := (mul_le_mul_right (entries_fallbackDefaults timeout
        ((ta.lookup "transition_timeout_ms").getD (.leaf (.int 3000)))) _).trans
          (object_entries_le below _ _)
      refine Spec.pre (A := cell fallback (.dict tb) * (cell below (.dict _) * F) *
        cell d (.dict ts)) ?_ (Spec.post (spec_setMerged sep_le_left) fun _ =>
          mul_le_mul_left sep_le_right _)
      calc object below _ * (cell timeout _ * (object runTarget ort *
            (cell fallback (.dict tb) * F)) * cell d (.dict ts))
          = object runTarget ort * (cell fallback (.dict tb) * ((object below _ * cell timeout _) *
            F) * cell d (.dict ts)) := by ac_rfl
        _ ≤ cell fallback (.dict tb) * ((object below _ * cell timeout _) * F) *
            cell d (.dict ts) := sep_le_right
        _ ≤ _ := by gcongr

end Sections

/-! ### The whole script -/

section Script

variable {config : Section}

structure Migrated (own : Section) : Prop where
  dict : ∀ t, own.lookup "deployment_config" = some t → t.kind = .dict
  notDeprecated : (sectionOf own "deployment_config").lookup "ready_recovery_action" = none

theorem spec_migrateDeploymentConfig (hP : P ≤ cell c (.dict own)) (hown : Migrated own)
    (context : String) : Spec P (migrateDeploymentConfig c context) fun _ => P := by
  refine Spec.read_dict hP fun o => Spec.readItem? inf_le_right
    (fun _ => Spec.pure inf_le_left) fun t v hk _ hle => ?_
  cases t with
  | leaf x => exact absurd (hown.dict _ hk) nofun
  | dict e =>
    have hnot := hown.notDeprecated
    rw [sectionOf_of_lookup hk] at hnot
    refine Spec.read_dict (inf_le_right.trans (sep_le_right.trans hle)) fun oe =>
      Spec.readItem? inf_le_right (fun _ => Spec.pure (inf_le_left.trans inf_le_left))
        fun t _ ht => ?_
    cases hnot.symm.trans ht

theorem spec_readSection {f : Value → Script γ} (hP : P ≤ cell c (.dict ts))
    (hdict : ∀ t, ts.lookup k = some t → t.kind = .dict)
    (hf : ∀ P' v, P' ≤ P → P' ≤ cell v (.dict (sectionOf ts k)) → Spec P' (f v) R) :
    Spec P (getOrEmpty c k >>= f) R := by
  rw [getOrEmpty, bind_assoc]
  refine Spec.read_dict hP fun o => Spec.readItem? inf_le_right (fun hk => ?_)
    fun t v hk _ hle => ?_
  · refine Spec.alloc fun v => hf _ v (sep_le_right.trans inf_le_left) (sep_le_left.trans ?_)
    simpa [sectionOf, hk] using object_entries_le v [] []
  · cases t with
    | leaf x => exact absurd (hdict _ hk) nofun
    | dict e =>
      refine hf _ v inf_le_left (inf_le_right.trans (sep_le_right.trans ?_))
      rwa [sectionOf_of_lookup hk]

/-- What the merged defaults and the configuration need for the script to go through. -/
structure Suits (md config : Section) : Prop where
  sections : ∀ k ∈ ["defaults", "components", "run_targets", "alive_supervision", "watchdog",
    "fallback_run_target"], ∀ t, config.lookup k = some t → t.kind = .dict
  defaults : Migrated (sectionOf config "defaults")
  components : ∀ e ∈ componentsIn config,
    ∃ own, e.2 = .dict own ∧ Migrated own ∧ SuitsDefaults md own
  runTargets : ∀ e ∈ sectionOf config "run_targets", e.2.kind = .dict
  forComponents : SuitsComponents md
  merged : ∀ k ∈ ["run_target", "alive_supervision", "watchdog"],
    ∃ d, md.lookup k = some (.dict d)

theorem spec_migrate (hP : P ≤ cell c (.dict config)) (hsuits : Suits md config)
    {f : List Warning → List (List Warning) → Script γ} (hf : ∀ w ws, Spec P (f w ws) R) :
    Spec P (do
      let ofDefaults ← migrateDeploymentConfig (← getOrEmpty c "defaults")
        "defaults.deployment_config"
      let ofComponents ← (← items (← getOrEmpty c "components")).mapM fun entry =>
        migrateDeploymentConfig entry.2 ("Component '" ++ entry.1 ++ "'")
      f ofDefaults ofComponents) R := by
  refine spec_readSection hP (hsuits.sections _ (by decide)) fun P₁ v hP₁ hv => ?_
  refine Spec.bind (spec_migrateDeploymentConfig hv hsuits.defaults _) fun w => ?_
  refine spec_readSection (hP₁.trans hP) (hsuits.sections _ (by decide)) fun P₂ v hP₂ hv => ?_
  refine Spec.read_dict hv fun o => Spec.items (inf_le_right.trans sep_le_left) ?_
  refine Spec.bind (Spec.mapM_read (inf_le_right.trans sep_le_right) fun name c t ht hc => ?_)
    fun ws => Spec.pre (inf_le_left.trans (hP₂.trans hP₁)) (hf w ws)
  obtain ⟨own, heq, hown, -⟩ := hsuits.components _ ht
  cases heq
  exact spec_migrateDeploymentConfig hc hown _

/-- The keys of the configuration that are read after its defaults. -/
def newConfigKeys : List String := ["schema_version", "components", "run_targets",
  "alive_supervision", "watchdog", "initial_run_target", "fallback_run_target"]

/-- What the new configuration is filled from: the configuration without its defaults, and the
merged defaults, which are only read. -/
theorem open_sources {x : Script γ} {m c d : Value} {o : Object String Scalar}
    (hx : ∀ om L, L = object m om * entries om md * (object c o * P) →
      Spec (taken o config newConfigKeys L * cell d (.dict [])) x R) :
    Spec (taken o config newConfigKeys (object c o * (cell m (.dict md) * P)) * cell d (.dict []))
      x R := by
  rw [taken_eq]
  refine Spec.pre (A := cell m (.dict md) * (taken o config newConfigKeys 1 * (object c o * P) *
    cell d (.dict []))) (Eq.le (by ac_rfl)) (Spec.open_dict fun om => ?_)
  refine Spec.pre (Eq.le ?_) (hx om _ rfl)
  rw [taken_eq _ _ _ (_ * _ * _)]
  ac_rfl

theorem fails_fillNewConfig (hsuits : Suits md config) (hprops : ¬ HasProperties config)
    (m c d : Value) (o : Object String Scalar) :
    Fails (taken o config newConfigKeys (object c o * (cell m (.dict md) * P)) * cell d (.dict []))
      (fillNewConfig m c d) := by
  refine open_sources fun om L hL => ?_
  rw [newConfigKeys, taken, taken]
  have hc : taken o config ["run_targets", "alive_supervision", "watchdog", "initial_run_target",
      "fallback_run_target"] L ≤ object c o :=
    taken_le.trans (hL.le.trans (sep_le_right.trans sep_le_left))
  refine Fails.after (spec_getOr (sep_le_right.trans hc) .null fun v => ?_)
  refine Fails.after (Spec.bind spec_setItem fun _ => Fails.bind ?_)
  refine fails_preprocessComponents hc (taken_le.trans (hL.le.trans sep_le_left))
    (hsuits.sections _ (by decide)) hsuits.forComponents (fun e he => ?_) hprops
  obtain ⟨own, heq, -, hown⟩ := hsuits.components e he
  exact ⟨own, heq, hown⟩

theorem spec_fillNewConfig (hsuits : Suits md config) (hprops : HasProperties config)
    (m c d : Value) (o : Object String Scalar) :
    Spec (taken o config newConfigKeys (object c o * (cell m (.dict md) * P)) * cell d (.dict []))
      (fillNewConfig m c d) fun _ => P * cell d (.dict (newConfigOf md config)) := by
  obtain ⟨drt, hdrt⟩ := hsuits.merged "run_target" (by decide)
  obtain ⟨das, hdas⟩ := hsuits.merged "alive_supervision" (by decide)
  obtain ⟨dwd, hdwd⟩ := hsuits.merged "watchdog" (by decide)
  have hsection := hsuits.sections
  refine open_sources fun om L hL => ?_
  simp only [newConfigKeys, taken]
  have hc : L ≤ object c o := hL.le.trans (sep_le_right.trans sep_le_left)
  have hmd : L ≤ object m om * entries om md := hL.le.trans sep_le_left
  have hskip : ∀ {A G E : Assertion String Scalar}, G ≤ E → A * G ≤ E := sep_le_right.trans
  refine spec_getOr (hskip <| hskip <| hskip <| hskip <| hskip <| hskip hc) .null fun v => ?_
  refine Spec.bind spec_setItem fun _ => ?_
  refine Spec.bind (spec_preprocessComponents (hskip <| hskip <| hskip <| hskip <| hskip hc)
    (hskip <| hskip <| hskip <| hskip <| hskip hmd) (hsection _ (by decide))
    hsuits.forComponents (fun e he => ?_) hprops) fun _ => ?_
  · obtain ⟨own, heq, -, hown⟩ := hsuits.components e he
    exact ⟨own, heq, hown⟩
  refine Spec.bind (spec_preprocessRunTargets (hskip <| hskip <| hskip <| hskip hc)
    (hskip <| hskip <| hskip <| hskip hmd) (hsection _ (by decide)) hdrt hsuits.runTargets)
    fun _ => ?_
  refine Spec.bind (spec_preprocessSection (hskip <| hskip <| hskip hc)
    (hskip <| hskip <| hskip hmd) (hsection _ (by decide)) hdas) fun _ => ?_
  refine Spec.bind (spec_preprocessSection (hskip <| hskip hc) (hskip <| hskip hmd)
    (hsection _ (by decide)) hdwd) fun _ => ?_
  -- The initial run target may be that of the defaults itself.
  have hkeys := entries_taken om md ["initial_run_target", "run_target"] (by decide)
    (object m om * (object c o * P))
  simp only [taken] at hkeys
  have hsplit : held (o.lookup "fallback_run_target") (config.lookup "fallback_run_target") * L ≤
      held (om.lookup "initial_run_target") (md.lookup "initial_run_target") *
      (held (o.lookup "fallback_run_target") (config.lookup "fallback_run_target") *
      (held (om.lookup "run_target") (md.lookup "run_target") *
      (object m om * (object c o * P)))) := by
    calc held (o.lookup "fallback_run_target") (config.lookup "fallback_run_target") * L
        = held (o.lookup "fallback_run_target") (config.lookup "fallback_run_target") *
          (entries om md * (object m om * (object c o * P))) := by
          rw [hL, ← mul_assoc (entries om md), mul_comm (entries om md)]
      _ ≤ _ := by
          rw [mul_left_comm (held (om.lookup "initial_run_target") _)]
          gcongr
  refine Spec.pre (mul_le_mul_left (mul_le_mul_right hsplit _) _) ?_
  refine Spec.bind (spec_preprocessInitialRunTarget (hskip <| hskip <| hskip sep_le_left)
    (hskip <| hskip sep_le_left)) fun _ => ?_
  refine Spec.post (spec_preprocessFallbackRunTarget (hskip sep_le_left) sep_le_left
    (hsection _ (by decide)) hdrt) fun _ => ?_
  exact mul_le_mul_left (hskip sep_le_right) _

/-- The script up to the new configuration, which is empty still: the warnings, the merged
defaults, the configuration's copy and the new one. -/
def prepare (globalDefaults config : Value) :
    Script (List Warning × List (List Warning) × Value × Value × Value) := do
  let config ← deepcopy config
  let ofDefaults ← migrateDeploymentConfig (← getOrEmpty config "defaults")
    "defaults.deployment_config"
  let ofComponents ← (← items (← getOrEmpty config "components")).mapM fun entry =>
    migrateDeploymentConfig entry.2 ("Component '" ++ entry.1 ++ "'")
  let mergedDefaults ← dictMerge globalDefaults (← getOrEmpty config "defaults")
  let newConfig ← alloc []
  pure (ofDefaults, ofComponents, mergedDefaults, config, newConfig)

theorem preprocessDefaults_eq (gd cfg : Value) : preprocessDefaults gd cfg =
    prepare gd cfg >>= fun (w, ws, m, c, d) => fillNewConfig m c d >>= fun _ =>
      pure (d, w ++ ws.flatten) := by
  simp only [preprocessDefaults, prepare, bind_assoc, pure_bind]

section Run

variable {h : Heap String Scalar} {globalDefaults : Section} {gd cfg : Value}
variable (hgd : Holds h gd (.dict globalDefaults)) (hcfg : Holds h cfg (.dict config))
variable (hsuits : Suits (mergedDefaultsOf globalDefaults config) config)
include hgd hcfg hsuits

theorem spec_prepare
    {f : List Warning × List (List Warning) × Value × Value × Value → Script γ}
    (hf : ∀ w ws m c d o, Spec (taken o config newConfigKeys (object c o *
      (cell m (.dict (mergedDefaultsOf globalDefaults config)) * snapshot h)) * cell d (.dict []))
        (f (w, ws, m, c, d)) R) : Spec (snapshot h) (prepare gd cfg >>= f) R := by
  simp only [prepare, bind_assoc, pure_bind]
  refine Spec.bind (Spec.deepcopy (snapshot_le hcfg)) fun c => ?_
  refine spec_migrate sep_le_right hsuits fun w ws => ?_
  rw [← mul_one (snapshot h * _), mul_comm (snapshot h)]
  refine Spec.open_keys ("defaults" :: newConfigKeys) (by decide) fun o => ?_
  rw [taken]
  refine spec_getOrEmpty (taken_le.trans sep_le_left) (hsuits.sections _ (by decide)) fun b => ?_
  rw [mul_one]
  refine Spec.bind
    (spec_dictMerge (taken_le.trans (sep_le_right.trans (snapshot_le hgd)))) fun m => ?_
  refine Spec.alloc fun d => ?_
  have hnew : object d [] ≤ cell d (.dict ([] : Section)) := by
    simpa using object_entries_le d [] []
  refine Spec.pre (mul_le_mul_left hnew _) (Spec.pre (Eq.le ?_) (hf w ws m c d o))
  rw [taken_eq, taken_eq _ _ _ (_ * (_ * _))]
  ac_rfl

/-- From the built-in defaults and a configuration that suit it, the script goes through and
leaves the merged configuration; no object that was there before is changed. -/
theorem preprocessDefaults_returns (hprops : HasProperties config) :
    ∃ res h', preprocessDefaults gd cfg h = .ok (res, h') ∧ Changes ∅ h h' ∧
      Holds h' res.1 (.dict (preprocessed globalDefaults config)) := by
  refine Spec.run (Q := fun res : Value × List Warning =>
    cell res.1 (.dict (preprocessed globalDefaults config))) ?_
  rw [preprocessDefaults_eq]
  exact spec_prepare hgd hcfg hsuits fun w ws m c d o =>
    Spec.bind (spec_fillNewConfig hsuits hprops m c d o) fun _ => Spec.pure le_rfl

/-- It does not go through if a component has no `component_properties`. -/
theorem hasProperties_of_returns {res : Value × List Warning} {h' : Heap String Scalar}
    (hrun : preprocessDefaults gd cfg h = .ok (res, h')) : HasProperties config := by
  by_contra hprops
  have hfails : Fails (snapshot h) (preprocessDefaults gd cfg) := by
    rw [preprocessDefaults_eq]
    exact Fails.after (spec_prepare hgd hcfg hsuits fun w ws m c d o =>
      Fails.bind (fails_fillNewConfig hsuits hprops m c d o))
  obtain ⟨e, he⟩ := hfails.exists_error subset_rfl ⟨subset_rfl, Changes.refl ∅ h⟩
  cases hrun.symm.trans he

end Run

end Script

end Preprocess

end LaunchManager
