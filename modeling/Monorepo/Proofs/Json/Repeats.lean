import Monorepo.Proofs.Json.Reader
import Monorepo.Proofs.Json.Record
import Monorepo.Proofs.Outcome

/-! Members with one key. A text is parsed with the last of them alone, and that is the one that is
found under the key in any case. -/
namespace Monorepo.Json
variable {members rest : List (String × Json)} {key : String}

theorem parse_eq_ok_iff {text : String} {v : Json} :
    parse text = .ok v ↔ ∃ w, Holds text w ∧ v = w.withoutRepeats := by
  unfold parse locating
  rw [mapError_eq_ok_iff]
  constructor
  · intro h
    obtain ⟨⟨w, rest⟩, hw, h⟩ := (bind_eq_ok_iff _ _ _).mp h
    obtain ⟨⟨⟩, he, h⟩ := (bind_eq_ok_iff _ _ _).mp h
    cases h
    exact ⟨w, ⟨rest, hw, he⟩, rfl⟩
  · rintro ⟨w, ⟨rest, hw, he⟩, rfl⟩
    exact (bind_eq_ok_iff _ _ _).mpr ⟨(w, rest), hw, (bind_eq_ok_iff _ _ _).mpr ⟨(), he, rfl⟩⟩

theorem find?_object_cons (m : String × Json) :
    (object (m :: rest)).find? key =
      ((object rest).find? key).or (if m.1 = key then some m.2 else none) := by
  simp only [find?, List.reverse_cons, List.find?_append, List.find?_singleton, beq_iff_eq,
    Option.map_or]
  split <;> rfl

theorem isSome_find?_object : ((object members).find? key).isSome = members.any (·.1 == key) := by
  rw [find?, Option.isSome_map, Bool.eq_iff_iff, List.find?_isSome, List.any_eq_true]
  simp only [List.mem_reverse]

theorem exists_mem_of_find? {v w : Json} (h : v.find? key = some w) :
    ∃ members, v = .object members ∧ (key, w) ∈ members := by
  cases v with
  | object members =>
    obtain ⟨m, hm, rfl⟩ := Option.map_eq_some_iff.mp h
    obtain rfl : m.1 = key := by simpa using List.find?_some hm
    exact ⟨members, rfl, List.mem_reverse.mp (List.mem_of_find?_eq_some hm)⟩
  | _ => cases h

theorem nesting_lt_of_find? {v w : Json} (h : v.find? key = some w) : nesting w < nesting v := by
  obtain ⟨members, rfl, hm⟩ := exists_mem_of_find? h
  exact Nat.lt_succ_of_le (nestingOfMembers_le_iff.mp le_rfl _ hm)

theorem find?_lastOfEach :
    (object (lastOfEach members)).find? key = (object members).find? key := by
  induction members with
  | nil => rfl
  | cons m rest ih =>
    rw [find?_object_cons, lastOfEach]
    split
    · next hany =>
      -- the member is dropped, and a later one with its key is found in any case
      rw [ih]
      by_cases hm : m.1 = key
      · obtain ⟨v, hv⟩ : ∃ v, (object rest).find? key = some v := by
          rw [← Option.isSome_iff_exists, isSome_find?_object, ← hm]
          exact hany
        rw [hv, Option.some_or]
      · rw [if_neg hm, Option.or_none]
    · rw [find?_object_cons, ih]

theorem find?_withoutRepeatsInMembers :
    (object (withoutRepeatsInMembers members)).find? key =
      ((object members).find? key).map withoutRepeats := by
  induction members with
  | nil => rfl
  | cons m rest ih =>
    obtain ⟨k, v⟩ := m
    rw [withoutRepeatsInMembers, find?_object_cons, find?_object_cons, ih, Option.map_or]
    dsimp only
    split <;> rfl

theorem find?_withoutRepeats (v : Json) :
    v.withoutRepeats.find? key = (v.find? key).map withoutRepeats := by
  cases v with
  | object members =>
    rw [withoutRepeats, find?_lastOfEach, find?_withoutRepeatsInMembers]
  | array items =>
    rw [withoutRepeats]
    rfl
  | _ =>
    rw [withoutRepeats]
    · rfl
    all_goals nofun

def listUnder? (key : String) (v : Json) : Option (List Json) :=
  match v.find? key with
  | some (array items) => some items
  | _ => none

theorem listUnder?_eq_some_iff {v : Json} {items : List Json} :
    listUnder? key v = some items ↔ v.find? key = some (.array items) := by
  unfold listUnder?
  cases v.find? key with
  | none => simp
  | some w => cases w <;> simp

theorem isSome_listUnder?_withoutRepeats (v : Json) :
    (listUnder? key v.withoutRepeats).isSome = (listUnder? key v).isSome := by
  unfold listUnder?
  rw [find?_withoutRepeats]
  cases v.find? key with
  | none => rfl
  | some w => cases w <;> simp [withoutRepeats]

mutual

def DistinctKeys : Json → Prop
  | array items => DistinctKeysInItems items
  | object members => (members.map (·.1)).Nodup ∧ DistinctKeysInMembers members
  | _ => True

def DistinctKeysInItems : List Json → Prop
  | [] => True
  | v :: rest => DistinctKeys v ∧ DistinctKeysInItems rest

def DistinctKeysInMembers : List (String × Json) → Prop
  | [] => True
  | (_, v) :: rest => DistinctKeys v ∧ DistinctKeysInMembers rest

end

theorem single?_eq_find? (h : (members.map (·.1)).Nodup) :
    single? members key = some ((object members).find? key) := by
  induction members with
  | nil => rfl
  | cons m rest ih =>
    obtain ⟨hm, hrest⟩ := List.nodup_cons.mp h
    rw [find?_object_cons]
    by_cases hk : m.1 = key
    · have hnone : single? rest key = some none :=
        single?_eq_none_iff.mpr fun n hn he => hm (List.mem_map.mpr ⟨n, hn, he.trans hk.symm⟩)
      have hfind := (ih hrest).symm.trans hnone
      subst hk
      rw [Option.some.inj hfind, if_pos rfl]
      exact single?_cons_self.mpr ⟨hnone, rfl⟩
    · rw [if_neg hk, Option.or_none, single?_cons_of_ne hk, ih hrest]

theorem lastOfEach_eq_self (h : (members.map (·.1)).Nodup) : lastOfEach members = members := by
  induction members with
  | nil => rfl
  | cons m rest ih =>
    obtain ⟨hm, hrest⟩ := List.nodup_cons.mp h
    have hany : rest.any (·.1 == m.1) = false := by
      rw [← Bool.not_eq_true, List.any_eq_true]
      rintro ⟨n, hn, he⟩
      exact hm (List.mem_map.mpr ⟨n, hn, eq_of_beq he⟩)
    rw [lastOfEach, hany, ih hrest]
    rfl

mutual

theorem withoutRepeats_eq_self (v : Json) (h : DistinctKeys v) : v.withoutRepeats = v := by
  cases v with
  | array items => rw [withoutRepeats, withoutRepeatsInItems_eq_self items h]
  | object members =>
    rw [withoutRepeats, withoutRepeatsInMembers_eq_self members h.2, lastOfEach_eq_self h.1]
  | _ =>
    rw [withoutRepeats]
    all_goals nofun

theorem withoutRepeatsInItems_eq_self (items : List Json) (h : DistinctKeysInItems items) :
    withoutRepeatsInItems items = items := by
  cases items with
  | nil => rfl
  | cons v rest =>
    rw [withoutRepeatsInItems, withoutRepeats_eq_self v h.1, withoutRepeatsInItems_eq_self rest h.2]

theorem withoutRepeatsInMembers_eq_self (members : List (String × Json))
    (h : DistinctKeysInMembers members) : withoutRepeatsInMembers members = members := by
  match members with
  | [] => rfl
  | (k, v) :: rest =>
    rw [withoutRepeatsInMembers, withoutRepeats_eq_self v h.1,
      withoutRepeatsInMembers_eq_self rest h.2]

end

end Monorepo.Json
