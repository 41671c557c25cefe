import Mathlib.Data.List.Forall2
import Mathlib.Data.List.Perm.Basic
import Monorepo.Json.Record

/-! Members looked up by their keys. It does not matter in which order they stand, nor whether what
is unset is left out; but a key that is looked up must not be written twice. -/
namespace Monorepo.Json

variable {members members' : List (String × Json)} {key : String}

theorem single?_cons_of_ne {m : String × Json} (h : m.1 ≠ key) :
    single? (m :: members) key = single? members key := by
  rw [single?, List.filter_cons_of_neg (by simpa using h)]
  rfl

theorem single?_eq_none_iff : single? members key = some none ↔ ∀ m ∈ members, m.1 ≠ key := by
  have hnil : members.filter (·.1 == key) = [] ↔ ∀ m ∈ members, m.1 ≠ key := by
    simp [List.filter_eq_nil_iff]
  rw [← hnil, single?]
  cases members.filter (·.1 == key) with
  | nil => simp
  | cons m rest => cases rest <;> simp

theorem single?_cons_self {v : Json} {f : Option Json} :
    single? ((key, v) :: members) key = some f ↔
      single? members key = some none ∧ f = some v := by
  rw [single?, single?, List.filter_cons_of_pos (by simp)]
  cases members.filter (·.1 == key) with
  | nil => simp [eq_comm]
  | cons m rest => cases rest <;> simp

theorem single?_filter_ne {other : String} (h : key ≠ other) :
    single? (members.filter (·.1 != other)) key = single? members key := by
  have hf : (members.filter (·.1 != other)).filter (·.1 == key) =
      members.filter (·.1 == key) := by
    rw [List.filter_filter]
    refine List.filter_congr fun m _ => ?_
    by_cases hm : m.1 = key <;> simp [hm, h]
  rw [single?, hf]
  rfl

theorem single?_perm (h : members.Perm members') (key : String) :
    single? members key = single? members' key := by
  have hp := h.filter (·.1 == key)
  unfold single?
  cases hf : members.filter (·.1 == key) with
  | nil =>
    rw [hf, List.nil_perm] at hp
    rw [hp]
  | cons m rest =>
    rw [hf] at hp
    cases rest with
    | nil => rw [List.singleton_perm.mp hp]
    | cons n rest =>
      have hl := hp.length_eq
      cases hf' : members'.filter (·.1 == key) with
      | nil => simp [hf'] at hl
      | cons m' rest' =>
        cases rest' with
        | nil => simp [hf'] at hl
        | cons n' rest' => rfl

def given (options : List (String × Option Json)) : List (String × Json) :=
  options.filterMap fun (k, v?) => v?.map (k, ·)

theorem mem_given {options : List (String × Option Json)} {m : String × Json} :
    m ∈ given options ↔ (m.1, some m.2) ∈ options := by
  simp only [given, List.mem_filterMap, Option.map_eq_some_iff]
  constructor
  · rintro ⟨⟨k, v?⟩, ho, v, rfl, rfl⟩
    exact ho
  · intro h
    exact ⟨_, h, m.2, rfl, rfl⟩

theorem single?_given {options : List (String × Option Json)} (hn : (options.map (·.1)).Nodup)
    {v? : Option Json} (h : (key, v?) ∈ options) : single? (given options) key = some v? := by
  induction options with
  | nil => cases h
  | cons o options ih =>
    obtain ⟨k, w?⟩ := o
    rw [List.map_cons, List.nodup_cons] at hn
    obtain ⟨hk, hn⟩ := hn
    have hgiven : given ((k, w?) :: options) = (w?.map (k, ·)).toList ++ given options := by
      cases w? <;> rfl
    rw [hgiven]
    obtain heq | hrest := List.mem_cons.mp h
    · obtain ⟨rfl, rfl⟩ := Prod.mk.inj heq
      have hnone : single? (given options) key = some none := by
        refine single?_eq_none_iff.mpr fun m hm hmk => hk ?_
        exact List.mem_map.mpr ⟨_, mem_given.mp hm, hmk⟩
      cases v? with
      | none => exact hnone
      | some v => exact single?_cons_self.mpr ⟨hnone, rfl⟩
    · have hne : k ≠ key := by
        rintro rfl
        exact hk (List.mem_map.mpr ⟨_, hrest, rfl⟩)
      cases w? with
      | none => exact ih hn hrest
      | some v => exact (single?_cons_of_ne hne).trans (ih hn hrest)

/-- The same value with the members of its objects in any order. -/
inductive Reorders : Json → Json → Prop
  | same (v : Json) : Reorders v v
  | array {items items' : List Json} (h : List.Forall₂ Reorders items items') :
    Reorders (.array items) (.array items')
  | object {members members' members'' : List (String × Json)}
    (hk : members.map (·.1) = members'.map (·.1))
    (hv : List.Forall₂ Reorders (members.map (·.2)) (members'.map (·.2)))
    (hp : members'.Perm members'') : Reorders (.object members) (.object members'')

theorem Reorders.exists_object {w : Json} (h : Reorders (.object members) w) :
    ∃ members', w = .object members' := by
  cases h with
  | same => exact ⟨_, rfl⟩
  | object => exact ⟨_, rfl⟩

theorem Reorders.exists_array {items : List Json} {w : Json} (h : Reorders (.array items) w) :
    ∃ items', w = .array items' ∧ List.Forall₂ Reorders items items' := by
  cases h with
  | same => exact ⟨items, rfl, List.forall₂_same.mpr fun v _ => .same v⟩
  | array h => exact ⟨_, rfl, h⟩

theorem exists_single?_of_forall₂ (hk : members.map (·.1) = members'.map (·.1))
    (hv : List.Forall₂ Reorders (members.map (·.2)) (members'.map (·.2))) {f : Option Json}
    (h : single? members key = some f) :
    ∃ f', single? members' key = some f' ∧ Option.Rel Reorders f f' := by
  induction members generalizing members' f with
  | nil =>
    rw [List.map_nil, eq_comm, List.map_eq_nil_iff] at hk
    subst hk
    cases h
    exact ⟨none, rfl, .none⟩
  | cons m members ih =>
    cases members' with
    | nil => cases hk
    | cons m' members' =>
      rw [List.map_cons, List.map_cons] at hk hv
      obtain ⟨k, v⟩ := m
      obtain ⟨k', v'⟩ := m'
      obtain ⟨hm, hks⟩ := List.cons_eq_cons.mp hk
      obtain ⟨hv, hvs⟩ := List.forall₂_cons.mp hv
      obtain rfl : k = k' := hm
      by_cases hkey : k = key
      · subst hkey
        obtain ⟨hnone, rfl⟩ := single?_cons_self.mp h
        obtain ⟨f', hf', hrel⟩ := ih hks hvs hnone
        cases hrel
        exact ⟨some v', single?_cons_self.mpr ⟨hf', rfl⟩, .some hv⟩
      · rw [single?_cons_of_ne hkey] at h
        obtain ⟨f', hf', hrel⟩ := ih hks hvs h
        exact ⟨f', by rw [single?_cons_of_ne hkey, hf'], hrel⟩

/-- A member is found in an object that was reordered just if it was found before. -/
theorem Reorders.exists_single? (h : Reorders (.object members) (.object members'))
    {f : Option Json} (hf : Json.single? members key = some f) :
    ∃ f', Json.single? members' key = some f' ∧ Option.Rel Reorders f f' := by
  cases h with
  | same =>
    refine ⟨f, hf, ?_⟩
    cases f with
    | none => exact .none
    | some v => exact .some (.same v)
  | object hk hv hp =>
    rw [← single?_perm hp]
    exact exists_single?_of_forall₂ hk hv hf

def textUnder? (members : List (String × Json)) (key : String) : Option (Option String) :=
  (single? members key).bind text?

def switchUnder? (members : List (String × Json)) (key : String) : Option (Option Bool) :=
  (single? members key).bind switch?

theorem textUnder?_of_reorders {options : List (String × Option Json)} {t : Option String}
    (hn : (options.map (·.1)).Nodup) (h : Reorders (.object (given options)) (.object members))
    (ht : (key, t.map .string) ∈ options) : textUnder? members key = some t := by
  obtain ⟨f, hf, hrel⟩ := h.exists_single? (single?_given hn ht)
  rw [textUnder?, hf]
  cases t with
  | none =>
    cases hrel
    rfl
  | some s =>
    cases hrel with
    | some hs =>
      cases hs
      rfl

theorem switchUnder?_of_reorders {options : List (String × Option Json)} {b : Option Bool}
    (hn : (options.map (·.1)).Nodup) (h : Reorders (.object (given options)) (.object members))
    (hb : (key, b.map .bool) ∈ options) : switchUnder? members key = some b := by
  obtain ⟨f, hf, hrel⟩ := h.exists_single? (single?_given hn hb)
  rw [switchUnder?, hf]
  cases b with
  | none =>
    cases hrel
    rfl
  | some s =>
    cases hrel with
    | some hs =>
      cases hs
      rfl

end Monorepo.Json
