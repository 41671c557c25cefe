import Monorepo.Proofs.Path.Location
import Monorepo.Proofs.Path.Route

/-! The one form of normal paths. A path without detours is a root and names, or steps up and then
names, with one slash between each two. Every normal form is written so, and whatever is written so
is its own normal form; detours may be taken out of paths before they are joined or after it. -/
namespace Monorepo

/-- Between two slashes in a row stands an empty segment, which is neither the first nor the
last. -/
theorem nil_mem_of_slashes (cs : List Utf8.Symbol) (h : [slash, slash] <:+: cs) :
    [] ∈ (segments cs).tail.dropLast := by
  obtain ⟨a, b, rfl⟩ := h
  have hsegments : segments (a ++ [slash, slash] ++ b) = segments a ++ [] :: segments b := by
    rw [List.append_assoc]
    change segments (a ++ slash :: (slash :: b)) = _
    rw [segments_append_slash, segments, if_pos rfl]
  rw [hsegments, List.tail_append_of_ne_nil (segments_ne_nil a),
    List.dropLast_append_of_ne_nil (List.cons_ne_nil _ _),
    List.dropLast_cons_of_ne_nil (segments_ne_nil b)]
  exact List.mem_append_right _ List.mem_cons_self

namespace Path
open Component FileSystem

def fromHere (up : Nat) (names : List Segment) : Path :=
  ⟨joinSegments (List.replicate up [dot, dot] ++ names)⟩

/-- The paths that are written without detours, from the root or from where one is. -/
inductive IsNormal : Path → Prop
  | fromRoot (l : Location) (h : ∀ s ∈ l, IsName s) : IsNormal (Location.path l)
  | fromHere (up : Nat) (names : List Segment) (h : ∀ s ∈ names, IsName s) :
    IsNormal (fromHere up names)

theorem ofComponents_route (up : Nat) (names : List Segment) (h : ∀ s ∈ names, IsName s) :
    ofComponents (route up names) = fromHere up names := by
  have hchars : (ofComponents (route up names)).chars = (fromHere up names).chars := by
    by_cases hr : route up names = []
    · obtain ⟨hup, hnames⟩ := List.append_eq_nil_iff.mp hr
      obtain rfl : up = 0 := by simpa using hup
      obtain rfl : names = [] := by simpa using hnames
      rfl
    · rw [← joinSegments_segments (ofComponents _).chars,
        segments_ofComponents _ hr (isStep_of_mem_route up names h), map_chars_route]
      rfl
  exact congrArg Path.mk hchars

theorem components_fromHere (up : Nat) (names : List Segment) (h : ∀ s ∈ names, IsName s) :
    (fromHere up names).components = route up names := by
  rw [← ofComponents_route up names h]
  exact components_ofComponents_steps _ (isStep_of_mem_route up names h)

theorem normalize_fromHere (up : Nat) (names : List Segment) (h : ∀ s ∈ names, IsName s) :
    (fromHere up names).normalize = fromHere up names := by
  rw [normalize, components_fromHere up names h, simplify_route, ofComponents_route up names h]

/-- The segments of such a path are its steps. The empty path has one segment, which is empty. -/
theorem segments_fromHere (up : Nat) (names : List Segment) (h : ∀ s ∈ names, IsName s) :
    fromHere up names = empty ∨
      segments (fromHere up names).chars = List.replicate up [dot, dot] ++ names := by
  by_cases hr : route up names = []
  · left
    rw [← ofComponents_route up names h, hr]
    rfl
  · right
    rw [← ofComponents_route up names h,
      segments_ofComponents _ hr (isStep_of_mem_route up names h), map_chars_route]

variable {p : Path}

theorem IsNormal.normalize_eq (h : p.IsNormal) : p.normalize = p := by
  cases h with
  | fromRoot l hl => exact normalize_path l hl
  | fromHere up names hn => exact normalize_fromHere up names hn

/-- The root and the empty path apart, no segment of a normal path is blank but the one in front of
the first slash. -/
theorem IsNormal.segments_cases (h : p.IsNormal) :
    p = ⟨[slash]⟩ ∨ p = empty ∨
      ∃ ss, (segments p.chars = ss ∨ segments p.chars = [] :: ss) ∧
        ∀ s ∈ ss, isBlank s = false := by
  cases h with
  | fromRoot l hl =>
    by_cases hne : l = []
    · exact Or.inl (by rw [hne]; rfl)
    · refine Or.inr (Or.inr ⟨l, Or.inr (segments_path l hne hl), fun s hs => ?_⟩)
      simp [isBlank, (hl s hs).1, (hl s hs).2.1]
  | fromHere up names hn =>
    obtain hp | hs := segments_fromHere up names hn
    · exact Or.inr (Or.inl hp)
    · refine Or.inr (Or.inr ⟨_, Or.inl hs, fun s hs => ?_⟩)
      obtain hs | hs := List.mem_append.mp hs
      · rw [List.eq_of_mem_replicate hs]
        decide
      · simp [isBlank, (hn s hs).1, (hn s hs).2.1]

theorem IsNormal.no_dot (h : p.IsNormal) : [dot] ∉ segments p.chars := by
  obtain rfl | rfl | ⟨ss, hs, hblank⟩ := h.segments_cases
  · decide
  · decide
  · intro hdot
    have hmem : [dot] ∈ ss := by
      obtain hs | hs := hs <;> simpa [hs] using hdot
    exact absurd (hblank _ hmem) (by decide)

theorem IsNormal.no_slashes (h : p.IsNormal) : ¬ [slash, slash] <:+: p.chars := by
  intro hslashes
  have hempty := nil_mem_of_slashes _ hslashes
  obtain rfl | rfl | ⟨ss, hs, hblank⟩ := h.segments_cases
  · exact absurd hempty (by decide)
  · exact absurd hempty (by decide)
  · have hmem : [] ∈ ss := by
      have htail := List.dropLast_subset _ hempty
      obtain hs | hs := hs
      · exact hs ▸ List.mem_of_mem_tail htail
      · rwa [hs] at htail
    exact absurd (hblank _ hmem) (by decide)

/-- A normal form is written from the root just if the path is. -/
theorem normalize_eq_fromRoot_or_fromHere (p : Path) :
    (p.isAbsolute = true ∧ ∃ l : Location, (∀ s ∈ l, IsName s) ∧ p.normalize = Location.path l) ∨
    (p.isAbsolute = false ∧
      ∃ up names, (∀ s ∈ names, IsName s) ∧ p.normalize = fromHere up names) := by
  cases ha : p.isAbsolute with
  | true => exact Or.inl ⟨rfl, p.place, isName_of_mem_place p, normalize_eq_path p ha⟩
  | false =>
    obtain ⟨up, names, hr, hn⟩ := exists_normalize_eq_route p ha
    exact Or.inr ⟨rfl, up, names, hn, by rw [hr, ofComponents_route up names hn]⟩

theorem isNormal_normalize (p : Path) : p.normalize.IsNormal := by
  obtain ⟨-, l, hl, hp⟩ | ⟨-, up, names, hn, hp⟩ := normalize_eq_fromRoot_or_fromHere p
  · exact hp ▸ .fromRoot l hl
  · exact hp ▸ .fromHere up names hn

theorem isNormal_iff (p : Path) : p.IsNormal ↔ p.normalize = p :=
  ⟨IsNormal.normalize_eq, fun h => h ▸ isNormal_normalize p⟩

/-- Detours of the first path may be taken out before joining or after it. -/
theorem normalize_normalize_join (p q : Path) :
    (p.normalize.join q).normalize = (p.join q).normalize := by
  cases hq : q.isAbsolute with
  | true => rw [join_of_isAbsolute _ q hq, join_of_isAbsolute _ q hq]
  | false =>
    apply normalize_congr
    rw [simplify_components_join _ q hq, simplify_components_join _ q hq, components_normalize,
      simplify_append_left]

/-- Each path has one normal form. It is written without dots, double slashes or a slash at its end,
that of the root apart: from the root along names if the path is absolute, and else so many steps up
and then along names. It is its own normal form, as are just the paths that are written so, and
whether the parts of a path are brought to it before they are joined makes no difference. -/
theorem normalize_canonical :
    (∀ p : Path,
      [dot] ∉ segments p.normalize.chars ∧ ¬ [slash, slash] <:+: p.normalize.chars ∧
      (p.normalize.chars.getLast? = some slash ↔ p.normalize = ⟨[slash]⟩) ∧
      (p.isAbsolute = true → ∃ names, (∀ s ∈ names, IsName s) ∧
        p.normalize.components = root :: names.map name ∧
        p.normalize.chars = slash :: joinSegments names) ∧
      (p.isAbsolute = false → ∃ up names, (∀ s ∈ names, IsName s) ∧
        p.normalize.components = List.replicate up parent ++ names.map name ∧
        p.normalize.chars = joinSegments (List.replicate up [dot, dot] ++ names)) ∧
      p.normalize.normalize = p.normalize ∧ (p.IsNormal ↔ p.normalize = p)) ∧
    ∀ a b : Path, (a.join b).normalize = (a.normalize.join b.normalize).normalize := by
  constructor
  · intro p
    have hnormal := isNormal_normalize p
    refine ⟨hnormal.no_dot, hnormal.no_slashes, getLast?_normalize_iff p, ?_, ?_,
      normalize_normalize p, isNormal_iff p⟩
    · intro ha
      refine ⟨p.place, isName_of_mem_place p, components_normalize_of_isAbsolute p ha, ?_⟩
      rw [normalize_eq_path p ha]
      rfl
    · intro ha
      obtain ⟨up, names, hr, hn⟩ := exists_normalize_eq_route p ha
      refine ⟨up, names, hn, ?_, ?_⟩
      · rw [hr, components_ofComponents_steps _ (isStep_of_mem_route up names hn)]
        rfl
      · rw [hr, ofComponents_route up names hn]
        rfl
  · intro a b
    rw [normalize_join_normalize, normalize_normalize_join]

/-- Steps up that are more than the names before them stay, and those above the root vanish. -/
theorem normalize_canonical_detours :
    (Path.ofString "./a//../..//b/./c/").normalize = .ofString "../b/c" ∧
    ¬ [slash, slash] <:+: (Path.ofString "./a//../..//b/./c/").normalize.chars ∧
    (Path.ofString "/../x/./").normalize = .ofString "/x" ∧
    ¬ (Path.ofString "./a//../..//b/./c/").IsNormal ∧
    ((Path.ofString "/../x/./").join (.ofString "./a//../..//b/./c/")).normalize =
      ((Path.ofString "/x").join (.ofString "../b/c")).normalize := by
  obtain ⟨hform, hjoin⟩ := normalize_canonical
  have hup : (Path.ofString "./a//../..//b/./c/").normalize = .ofString "../b/c" := by decide
  have hroot : (Path.ofString "/../x/./").normalize = .ofString "/x" := by decide
  refine ⟨hup, (hform _).2.1, hroot, ?_, ?_⟩
  · rw [(hform _).2.2.2.2.2.2]
    decide
  · rw [hjoin, hup, hroot]

end Path
end Monorepo
