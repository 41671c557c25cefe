import Monorepo.Glob.Walk
import Monorepo.Proofs.Outcome
import Monorepo.Proofs.Path.Normal

/-! What a pattern finds. A search only goes from a path to its entries, so all that it finds has
what its start has and what each path hands on to its entries. -/
namespace Monorepo.Glob
variable {fs : FileSystem} {turns : Nat} {piece : Piece} {rest : List Piece} {p q : Path}
  {s : Segment}

theorem mem_below_cons (h : .ok q ∈ below fs turns (piece :: rest) p) :
    (∃ s, .ok q ∈ below fs turns rest (p.join ⟨s⟩)) ∨
      ∃ s, .ok q ∈ visit fs turns (piece :: rest) (p.join ⟨s⟩) s := by
  rw [below.eq_def] at h
  split at h
  next => contradiction
  next cs _ heq =>
    cases heq
    dsimp only at h
    split_ifs at h
    · exact Or.inl ⟨cs.map .char, h⟩
    · exact absurd h List.not_mem_nil
    · exact Or.inl ⟨cs.map .char, h⟩
    · exact absurd h List.not_mem_nil
  next heq =>
    cases heq
    split_ifs at h
    · split at h
      next => cases List.mem_singleton.mp h
      next =>
        obtain h | h := List.mem_append.mp h
        · obtain ⟨cs, -, h⟩ := List.mem_flatMap.mp h
          exact Or.inl ⟨cs.map .char, h⟩
        · obtain ⟨s, -, h⟩ := List.mem_flatMap.mp h
          exact Or.inr ⟨s, h⟩
    · exact absurd h List.not_mem_nil

theorem mem_visit_cons (h : .ok q ∈ visit fs turns (piece :: rest) p s) :
    q = p ∨ .ok q ∈ below fs turns rest p ∨ .ok q ∈ visit fs turns rest p s ∨
      ∃ n, turns = n + 1 ∧ .ok q ∈ below fs n (piece :: rest) p := by
  rw [visit.eq_def] at h
  split at h
  next => contradiction
  next heq =>
    cases heq
    obtain h | h := List.mem_append.mp h
    · split_ifs at h
      · exact Or.inl (Except.ok.inj (List.mem_singleton.mp h))
      · exact absurd h List.not_mem_nil
      · exact Or.inr (Or.inr (Or.inl h))
    · cases turns with
      | zero => exact absurd h List.not_mem_nil
      | succ n =>
        dsimp only at h
        split_ifs at h
        · exact Or.inr (Or.inr (Or.inr ⟨n, rfl, h⟩))
        · exact absurd h List.not_mem_nil
  next heq =>
    cases heq
    split_ifs at h
    · exact Or.inr (Or.inl h)
    · exact absurd h List.not_mem_nil

/-! Both searches recurse as their definitions do: on the turns left, then on the pieces. -/

mutual

theorem forall_mem_below {P : Path → Prop} (hentry : ∀ p s, P p → P (p.join ⟨s⟩)) (turns : Nat)
    (ps : List Piece) (p : Path) (hp : P p) : ∀ q, .ok q ∈ below fs turns ps p → P q := by
  intro q hq
  match ps with
  | [] =>
    rw [below, List.mem_singleton] at hq
    rwa [Except.ok.inj hq]
  | piece :: rest =>
    obtain ⟨s, hq⟩ | ⟨s, hq⟩ := mem_below_cons hq
    · exact forall_mem_below hentry turns rest _ (hentry p s hp) q hq
    · exact forall_mem_visit hentry turns _ _ s (hentry p s hp) q hq
termination_by (turns, ps.length, 1)

theorem forall_mem_visit {P : Path → Prop} (hentry : ∀ p s, P p → P (p.join ⟨s⟩)) (turns : Nat)
    (ps : List Piece) (p : Path) (s : Segment) (hp : P p) :
    ∀ q, .ok q ∈ visit fs turns ps p s → P q := by
  intro q hq
  match ps with
  | [] =>
    rw [visit] at hq
    exact absurd hq List.not_mem_nil
  | piece :: rest =>
    obtain rfl | hb | hv | ⟨n, rfl, hb⟩ := mem_visit_cons hq
    · exact hp
    · exact forall_mem_below hentry turns rest p hp q hb
    · exact forall_mem_visit hentry turns rest p s hp q hv
    · exact forall_mem_below hentry n _ p hp q hb
termination_by (turns, ps.length, 0)

end

theorem mem_filterMap_toOption {xs : List (Except Unlisted Path)} :
    q ∈ xs.filterMap Except.toOption ↔ .ok q ∈ xs := by
  have h (x : Except Unlisted Path) : x.toOption = some q ↔ x = .ok q := by
    cases x <;> simp [Except.toOption]
  simp only [List.mem_filterMap, h, exists_eq_right]

/-- What a pattern finds is absolute and in its normal form. -/
theorem normal_of_mem_directories {pattern : List Char} {found : List Path}
    (h : directories fs pattern = .ok found) (hq : q ∈ found) :
    q.isAbsolute = true ∧ q.normalize = q := by
  obtain ⟨found', hfound, h⟩ := (bind_eq_ok_iff _ _ _).mp h
  obtain ⟨ps, -, hbelow⟩ := (bind_eq_ok_iff _ _ _).mp hfound
  cases h
  cases hbelow
  obtain ⟨x, hx, rfl⟩ := List.mem_map.mp hq
  have habs : x.isAbsolute = true :=
    forall_mem_below (P := fun p => p.isAbsolute = true)
      (fun p s hp => Path.isAbsolute_join p ⟨s⟩ hp) _ _ _ rfl x
      (mem_filterMap_toOption.mp (List.mem_filter.mp hx).1)
  exact ⟨by rw [Path.isAbsolute_normalize, habs], Path.normalize_normalize x⟩

end Monorepo.Glob
