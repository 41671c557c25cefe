import Mathlib.Data.List.Infix
import Monorepo.FileSystem.Query
import Monorepo.Proofs.FileSystem.Walk
import Monorepo.Proofs.Path.Location

/-! Real paths and normal forms. A normal form is made without asking the disk, and leads to another
place than the path itself only if a `..` of the path undoes the name of a link. -/
namespace Monorepo
namespace FileSystem
open Monorepo.Path Component

theorem trimBlank_names (l : Location) (hl : ∀ s ∈ l, IsName s) : trimBlank l = l := by
  cases l using List.reverseRecOn with
  | nil => rfl
  | append_singleton l s _ =>
    exact List.rdropWhile_concat_neg _ _ _ (not_isBlank_of_isName (hl s (by simp)))

theorem parent?_path_nil : (Location.path []).parent? = none := rfl

/-- Above a location is the location without its last name. -/
theorem parent?_path_append (l : Location) (s : Segment) (hl : ∀ t ∈ l ++ [s], IsName t) :
    (Location.path (l ++ [s])).parent? = some (Location.path l) := by
  have hne : l ++ [s] ≠ [] := by simp
  have hinit : trimBlank (l ++ [s]).dropLast = l := by
    rw [List.dropLast_concat]
    exact trimBlank_names l fun t ht => hl t (List.mem_append_left _ ht)
  rw [parent?, segments_path _ hne hl]
  simp only [trimBlank_names _ hl, hinit]
  cases l <;> rfl

theorem mem_of_mem_segments (cs : List Utf8.Symbol) (s : Segment) (c : Utf8.Symbol)
    (hs : s ∈ segments cs)
    (hc : c ∈ s) : c ∈ cs := by
  induction cs generalizing s with
  | nil =>
    obtain rfl := List.mem_singleton.mp hs
    cases hc
  | cons d cs ih =>
    by_cases hd : d = slash
    · rw [segments, if_pos hd, List.mem_cons] at hs
      obtain rfl | hs := hs
      · cases hc
      · exact List.mem_cons_of_mem _ (ih s hs hc)
    · cases ht : segments cs with
      | nil => exact absurd ht (segments_ne_nil cs)
      | cons t rest =>
        rw [segments, if_neg hd, ht, List.mem_cons] at hs
        obtain rfl | hs := hs
        · obtain rfl | hc := List.mem_cons.mp hc
          · exact List.mem_cons_self
          · exact List.mem_cons_of_mem _ (ih t (by rw [ht]; exact List.mem_cons_self) hc)
        · exact List.mem_cons_of_mem _ (ih s (by rw [ht]; exact List.mem_cons_of_mem _ hs) hc)

theorem mem_joinSegments (ss : List Segment) (c : Utf8.Symbol) (h : c ∈ joinSegments ss) :
    c = slash ∨ ∃ s ∈ ss, c ∈ s := by
  induction ss with
  | nil => cases h
  | cons s ss ih =>
    cases ss with
    | nil => exact Or.inr ⟨s, List.mem_cons_self, h⟩
    | cons t ss =>
      obtain h | h := List.mem_append.mp h
      · exact Or.inr ⟨s, List.mem_cons_self, h⟩
      · obtain rfl | h := List.mem_cons.mp h
        · exact Or.inl rfl
        · exact (ih h).imp_right fun ⟨u, hu, hc⟩ => ⟨u, List.mem_cons_of_mem _ hu, hc⟩

/-- A location is written with no characters but those of its names, and slashes. -/
theorem nul_not_mem_path (p : Path) (l : Location) (hp : .char '\x00' ∉ p.chars)
    (hl : ∀ s ∈ l, s ∈ segments p.chars) : .char '\x00' ∉ (Location.path l).chars := by
  intro h
  obtain h | h := List.mem_cons.mp h
  · exact absurd h (by decide)
  · obtain h | ⟨s, hs, hc⟩ := mem_joinSegments l _ h
    · exact absurd h (by decide)
    · exact hp (mem_of_mem_segments _ s _ (hl s hs) hc)

theorem mem_segments_of_name_mem_steps (p : Path) (s : Segment) (h : name s ∈ p.steps) :
    s ∈ segments p.chars := by
  obtain ⟨t, ht, hs⟩ := List.mem_filterMap.mp h
  obtain ⟨-, rfl⟩ := (ofSegment?_eq_some_iff t _ (no_slash_of_mem_segments _ _ ht)).mp hs
  exact ht

theorem mem_foldl_lead (cs : List Component) (s : Segment) (h : s ∈ cs.foldl lead []) :
    name s ∈ cs := by
  induction cs using List.reverseRecOn with
  | nil => cases h
  | append_singleton cs c ih =>
    rw [List.foldl_append] at h
    cases c with
    | root => exact List.mem_append_left _ (ih h)
    | current => exact List.mem_append_left _ (ih h)
    | parent => exact List.mem_append_left _ (ih (List.dropLast_subset _ h))
    | name t =>
      obtain h | h := List.mem_append.mp h
      · exact List.mem_append_left _ (ih h)
      · obtain rfl := List.mem_singleton.mp h
        exact List.mem_append_right _ List.mem_cons_self

variable {fs : FileSystem} {k k' : Nat} {l l' : Location} {s : Segment} {ss : List Segment}
  {p real : Path}

theorem leads_path (hl : ∀ s ∈ l, IsName s) :
    Leads fs k [] (segments (Location.path l).chars) k' l' ↔ Leads fs k [] l k' l' := by
  have hroot : fs.isDirectoryAt [] = true := rfl
  cases l with
  | nil =>
    change Leads fs k [] [[], []] k' l' ↔ _
    rw [leads_blank_iff rfl, leads_blank_iff rfl]
    simp [hroot]
  | cons s l =>
    rw [segments_path (s :: l) (by simp) hl, leads_blank_iff rfl]
    simp [hroot]

theorem follow_of_isAbsolute (toEnd : Bool) (ha : p.isAbsolute = true)
    (hp : .char '\x00' ∉ p.chars) :
    fs.follow ⟨toEnd, true⟩ p = fs.walk ⟨toEnd, true⟩ linkLimit [] (segments p.chars) := by
  have hne : ¬ p.isEmpty = true := by
    intro h
    rw [(Path.isEmpty_iff p).mp h] at ha
    cases ha
  simp [follow, hp, hne, ha]

theorem realPath_eq_some_iff (ha : p.isAbsolute = true) :
    fs.realPath p = .ok (some real) ↔ .char '\x00' ∉ p.chars ∧
      ∃ k l, Leads fs linkLimit [] (segments p.chars) k l ∧ real = Location.path l := by
  by_cases hp : .char '\x00' ∈ p.chars
  · simp [realPath, follow, hp, Fault.isAbsence]
  · rw [realPath, follow_of_isAbsolute true ha hp]
    simp only [hp, not_false_eq_true, true_and]
    constructor
    · intro h
      split at h
      · next l hw =>
        obtain ⟨k, hk⟩ := walk_eq_taken_iff.mp hw
        cases h
        exact ⟨k, l, hk, rfl⟩
      · cases h
      · split_ifs at h
        cases h
    · rintro ⟨k, l, hk, rfl⟩
      rw [walk_eq_taken_iff.mpr ⟨k, hk⟩]

/-- A real path is in its normal form. -/
theorem normalize_of_realPath (ha : p.isAbsolute = true) (h : fs.realPath p = .ok (some real)) :
    real.normalize = real := by
  obtain ⟨-, k, l, hl, rfl⟩ := (realPath_eq_some_iff ha).mp h
  exact normalize_path l (hl.isName (by simp) (no_slash_of_mem_segments p.chars))

def IsLink (fs : FileSystem) (p : Path) : Prop :=
  ∃ l t, fs.follow ⟨false, true⟩ p = .ok (.taken l) ∧ fs.entry? l = some (.link t)

theorem not_isLink (hf : fs.follow ⟨false, true⟩ p = .ok (.taken l))
    (he : ∀ t, fs.entry? l ≠ some (.link t)) : ¬ fs.IsLink p := by
  rintro ⟨m, t, hm, ht⟩
  rw [hf] at hm
  cases hm
  exact he t ht

theorem isLink_path {ns : List Segment} {t : Path} (hn : ∀ u ∈ ns ++ [s], IsName u)
    (hp : .char '\x00' ∉ (Location.path (ns ++ [s])).chars) (h : Leads fs linkLimit [] ns k l)
    (ha : fs.Admits l s) (he : fs.entry? (l ++ [s]) = some (.link t)) :
    fs.IsLink (Location.path (ns ++ [s])) := by
  refine ⟨l ++ [s], t, ?_, he⟩
  rw [follow_of_isAbsolute false rfl hp, segments_path _ (by simp) hn, walk_blank rfl rfl,
    walk_append h (Or.inr (by simp)), walk_of_admits ha, he]
  rfl

/-- No `..` of `p` undoes the name of a link. What a `..` undoes is the last name in the normal form
of all that stands before it. -/
def UndoesNoLink (fs : FileSystem) (p : Path) : Prop :=
  ∀ as bs, p.components = as ++ parent :: bs → ¬ fs.IsLink (ofComponents as).normalize

/-- What is left of segments in a normal form leads to the same place, and uses up no more links. -/
theorem exists_leads_foldl_lead (hs : ∀ s ∈ ss, slash ∉ s) (h : Leads fs linkLimit [] ss k l)
    (hn : ∀ as bs ns s, ss.filterMap ofSegment? = as ++ parent :: bs →
      as.foldl lead [] = ns ++ [s] → ∀ k l t, Leads fs linkLimit [] ns k l → fs.Admits l s →
        fs.entry? (l ++ [s]) ≠ some (.link t)) :
    ∃ k', k ≤ k' ∧ Leads fs linkLimit [] ((ss.filterMap ofSegment?).foldl lead []) k' l := by
  induction ss using List.reverseRecOn generalizing k l with
  | nil =>
    cases h
    exact ⟨linkLimit, Nat.le_refl _, .stay _ _⟩
  | append_singleton ss s ih =>
    obtain ⟨k₁, l₁, h₁, h₂⟩ := h.split
    have hs₁ : ∀ t ∈ ss, slash ∉ t := fun t ht => hs t (by simp [ht])
    obtain ⟨k₁', hk, h₁'⟩ := ih hs₁ h₁ (by
      intro as bs ns u has
      exact hn as (bs ++ [s].filterMap ofSegment?) ns u
        (by rw [List.filterMap_append, has, List.append_assoc, List.cons_append]))
    rw [List.filterMap_append, List.foldl_append]
    obtain ⟨hb, -, rfl, rfl⟩ | ⟨rfl, -, rfl, rfl⟩ | ⟨ha, -⟩ := h₂.singleton_cases
    · rw [List.filterMap_cons_none (ofSegment?_of_isBlank s hb)]
      exact ⟨k₁', hk, h₁'⟩
    · change ∃ k', _ ∧ Leads fs linkLimit [] ((ss.filterMap ofSegment?).foldl lead []).dropLast k' _
      have hname := isName_of_mem_foldl_lead (ss.filterMap ofSegment?) [] (by
        intro c hc
        obtain ⟨t, ht, hc⟩ := List.mem_filterMap.mp hc
        exact ((ofSegment?_eq_some_iff t c (hs₁ t ht)).mp hc).1) (by simp)
      cases hns : (ss.filterMap ofSegment?).foldl lead [] using List.reverseRecOn with
      | nil =>
        rw [hns] at h₁'
        cases h₁'
        exact ⟨linkLimit, hk, .stay _ _⟩
      | append_singleton ns u _ =>
        rw [hns] at h₁'
        obtain ⟨m, hm, rfl⟩ := h₁'.last_name (hname u (by simp [hns]))
          (hn _ [] ns u (List.filterMap_append ..) hns)
        rw [List.dropLast_concat, List.dropLast_concat]
        exact ⟨k₁', hk, hm⟩
    · have hslash : slash ∉ s := hs s (by simp)
      rw [List.filterMap_cons_some
        ((ofSegment?_eq_some_iff s (name s) hslash).mpr ⟨ha.isName hslash, rfl⟩)]
      obtain ⟨n, rfl⟩ := Nat.exists_eq_add_of_le hk
      exact ⟨k + n, Nat.le_add_right k n, h₁'.append (h₂.add n)⟩

/-- The normal form of a path that undoes no link leads to the same file. -/
theorem realPath_normalize (ha : p.isAbsolute = true) (h : fs.realPath p = .ok (some real))
    (hu : fs.UndoesNoLink p) : fs.realPath p.normalize = .ok (some real) := by
  obtain ⟨hp, k, l, hl, rfl⟩ := (realPath_eq_some_iff ha).mp h
  have hnul (as bs : List Component) (hs : p.steps = as ++ bs) :
      .char '\x00' ∉ (Location.path (as.foldl lead [])).chars := by
    refine nul_not_mem_path p _ hp fun s hm => mem_segments_of_name_mem_steps p s ?_
    rw [hs]
    exact List.mem_append_left _ (mem_foldl_lead as s hm)
  have hn : ∀ as bs ns s, p.steps = as ++ parent :: bs → as.foldl lead [] = ns ++ [s] →
      ∀ k l t, Leads fs linkLimit [] ns k l → fs.Admits l s →
        fs.entry? (l ++ [s]) ≠ some (.link t) := by
    intro as bs ns s hs hns k l t hk hadm he
    have hstep : ∀ c ∈ as, IsStep c := fun c hc =>
      isStep_of_mem_steps p c (hs ▸ List.mem_append_left _ hc)
    have hc := components_ofComponents_root as hstep
    have habs : (ofComponents (root :: as)).isAbsolute = true :=
      isAbsolute_of_root_mem _ (by rw [hc]; exact List.mem_cons_self)
    rw [components_of_isAbsolute _ habs] at hc
    have hplace : (ofComponents (root :: as)).place = ns ++ [s] := by
      rw [place, List.tail_eq_of_cons_eq hc, hns]
    refine hu (root :: as) bs (by rw [components_of_isAbsolute p ha, hs]; rfl) ?_
    rw [normalize_eq_path _ habs, hplace]
    refine isLink_path (fun u hu => ?_) (hns ▸ hnul as _ hs) hk hadm he
    exact isName_of_mem_place _ u (hplace ▸ hu)
  obtain ⟨k', -, hk'⟩ := exists_leads_foldl_lead (no_slash_of_mem_segments p.chars) hl hn
  rw [normalize_eq_path p ha]
  refine (realPath_eq_some_iff rfl).mpr ⟨hnul p.steps [] (List.append_nil _).symm, k', l, ?_, rfl⟩
  exact (leads_path (isName_of_mem_place p)).mpr hk'

theorem isWithin_path (l m : Location) (hl : ∀ s ∈ l, IsName s) (hm : ∀ s ∈ m, IsName s) :
    (Location.path l).isWithin (Location.path m) = true ↔ ∃ ns, l = m ++ ns := by
  rw [Path.isWithin, components_path l hl, components_path m hm, List.isPrefixOf_iff_prefix,
    List.cons_prefix_cons, List.prefix_map_iff_of_injective fun _ _ h => Component.name.inj h]
  simp [List.IsPrefix, eq_comm]

/-- The paths on the way down from a directory to a file. -/
theorem forall_between {P : Path → Prop} (rs ns : Location) (hname : ∀ s ∈ rs ++ ns, IsName s)
    (h : ∀ us ∈ ns.inits, us ≠ [] → P (Location.path (rs ++ us))) (q : Path)
    (hn : q.normalize = q) (hr : q.isWithin (Location.path rs) = true) (hne : q ≠ Location.path rs)
    (hw : (Location.path (rs ++ ns)).isWithin q = true) : P q := by
  have hrs : ∀ s ∈ rs, IsName s := fun s hs => hname s (List.mem_append_left _ hs)
  have ha : q.isAbsolute = true := by
    rw [Path.isWithin, components_path rs hrs, List.isPrefixOf_iff_prefix] at hr
    exact isAbsolute_of_root_mem q (hr.subset List.mem_cons_self)
  obtain ⟨l, hl, rfl⟩ := exists_eq_path q ha hn
  obtain ⟨us, rfl⟩ := (isWithin_path l rs hl hrs).mp hr
  obtain ⟨vs, hvs⟩ := (isWithin_path _ _ hname hl).mp hw
  rw [List.append_assoc, List.append_cancel_left_eq] at hvs
  refine h us ((List.mem_inits us ns).mpr ⟨vs, hvs.symm⟩) ?_
  rintro rfl
  exact hne (by rw [List.append_nil])

/-- Names that are not those of links lead from a directory to a file and from the real directory to
the real file. -/
theorem realPath_path_append {rs ns : Location} (hname : ∀ s ∈ rs ++ ns, IsName s)
    (h : fs.realPath (Location.path (rs ++ ns)) = .ok (some real))
    (hn : ∀ us s vs, ns = us ++ s :: vs → ¬ fs.IsLink (Location.path (rs ++ us ++ [s]))) :
    ∃ m : Location, (∀ s ∈ m, IsName s) ∧
      fs.realPath (Location.path rs) = .ok (some (Location.path m)) ∧
      real = Location.path (m ++ ns) := by
  obtain ⟨hnul, k, l, hl, rfl⟩ := (realPath_eq_some_iff rfl).mp h
  rw [leads_path hname] at hl
  have hsegments : ∀ s ∈ rs ++ ns, s ∈ segments (Location.path (rs ++ ns)).chars := by
    intro s hs
    apply mem_segments_of_name_mem_steps
    apply mem_foldl_lead
    change s ∈ (Location.path (rs ++ ns)).place
    rwa [place_path _ hname]
  have hnul' (us vs : List Segment) (hu : rs ++ ns = us ++ vs) :
      .char '\x00' ∉ (Location.path us).chars :=
    nul_not_mem_path _ us hnul fun s hs => hsegments s (hu ▸ List.mem_append_left _ hs)
  have hrs : ∀ s ∈ rs, IsName s := fun s hs => hname s (List.mem_append_left _ hs)
  obtain ⟨m, hm, rfl⟩ := hl.names (fun s hs => hname s (List.mem_append_right _ hs)) (by
    rintro us s vs rfl k₁ m t hk hadm he
    have hsplit : rs ++ (us ++ s :: vs) = rs ++ us ++ [s] ++ vs := by simp
    exact hn us s vs rfl (isLink_path (fun u hu => hname u (hsplit ▸ List.mem_append_left _ hu))
      (hnul' _ vs hsplit) hk hadm he))
  refine ⟨m, hm.isName (by simp) fun s hs => (hrs s hs).2.2.2, ?_, rfl⟩
  exact (realPath_eq_some_iff rfl).mpr ⟨hnul' rs ns rfl, k, m, (leads_path hrs).mpr hm, rfl⟩

/-- Where no links stand below a directory, the names that lead from there to a file lead from the
real directory to the real file. -/
theorem twins_realPath {R : Path} (hR : R.isAbsolute = true) (hRn : R.normalize = R)
    (ha : p.isAbsolute = true) (hpn : p.normalize = p) (hw : p.isWithin R = true)
    (h : fs.realPath p = .ok (some real))
    (hn : ∀ q : Path, q.normalize = q → q.isWithin R = true → q ≠ R → p.isWithin q = true →
      ¬ fs.IsLink q) :
    ∃ base, fs.realPath R = .ok (some base) ∧ base.isAbsolute = true ∧ base.normalize = base ∧
      Twins R base p real := by
  obtain ⟨rs, hrs, rfl⟩ := exists_eq_path R hR hRn
  obtain ⟨ps, hps, rfl⟩ := exists_eq_path p ha hpn
  obtain ⟨ns, rfl⟩ := (isWithin_path ps rs hps hrs).mp hw
  obtain ⟨m, hm, hbase, rfl⟩ := realPath_path_append hps h (by
    rintro us s vs rfl
    have hsplit : rs ++ (us ++ s :: vs) = rs ++ us ++ [s] ++ vs := by simp
    have hqn : ∀ u ∈ rs ++ us ++ [s], IsName u :=
      fun u hu => hps u (hsplit ▸ List.mem_append_left _ hu)
    refine hn _ (normalize_path _ hqn) ?_ ?_ ?_
    · exact (isWithin_path _ _ hqn hrs).mpr ⟨us ++ [s], List.append_assoc ..⟩
    · intro hc
      have hplace := congrArg Path.place hc
      rw [place_path _ hqn, place_path _ hrs] at hplace
      simpa using congrArg List.length hplace
    · exact (isWithin_path _ _ hps hqn).mpr ⟨vs, hsplit⟩)
  refine ⟨Location.path m, hbase, rfl, normalize_path m hm, ns, ?_, ?_⟩
  · rw [LiesAt, place_path rs hrs]
    exact components_path _ hps
  · rw [LiesAt, place_path m hm]
    refine components_path _ fun s hs => ?_
    obtain hs | hs := List.mem_append.mp hs
    · exact hm s hs
    · exact hps s (List.mem_append_right _ hs)

end FileSystem
end Monorepo
