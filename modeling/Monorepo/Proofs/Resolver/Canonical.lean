import Monorepo.Proofs.Path.Route
import Monorepo.Proofs.Resolver.Agreement

/-! The one form of relative answers. A path seen from a directory is a route; its spelling has no
segments but those of the route, and whoever resolves the spelling once more gets it back. -/
namespace Monorepo.Resolver
open Monorepo.Path Component

theorem lossy_ofComponents_route (up : Nat) (names : List Segment) :
    (ofComponents (route up names)).lossy =
      ofComponents (route up (names.map (List.map Utf8.Symbol.lossy))) := by
  rw [lossy_ofComponents, route, List.map_append, List.map_replicate, List.map_map, route,
    List.map_map]
  rfl

/-- A route, or a lone dot in place of the route that leads nowhere. -/
theorem seenFrom_eq_route (p dir : Path) (h : p.isAbsolute = true → dir.isAbsolute = true) :
    ∃ up names, (∀ s ∈ names, IsName s) ∧
      (seenFrom p.normalize dir = ofComponents (route up names) ∨
        route up names = [] ∧ seenFrom p.normalize dir = ⟨[dot]⟩) := by
  cases hp : p.isAbsolute with
  | true =>
    have hn : p.normalize.isAbsolute = true := by rw [isAbsolute_normalize, hp]
    obtain ⟨up, names, hr, hs⟩ := exists_relativeTo_eq_route p.normalize dir hn (h hp)
    refine ⟨up, names, hs, Or.inl ?_⟩
    rw [seenFrom, if_pos hn, hr]
  | false =>
    have hn : p.normalize.isAbsolute = false := by rw [isAbsolute_normalize, hp]
    obtain ⟨up, names, hr, hs⟩ := exists_normalize_eq_route p hp
    refine ⟨up, names, hs, ?_⟩
    rw [seenFrom, if_neg (by simp [hn])]
    split_ifs with he
    · right
      have hroute := ofComponents_eq_empty_iff _ (isStep_of_mem_route up names hs)
      exact ⟨hroute.mp (hr ▸ (Path.isEmpty_iff _).mp he), rfl⟩
    · exact Or.inl hr

/-- What is spelled is a route as well, with names that may be shown. -/
theorem lossy_seenFrom_eq_route (p dir : Path) (h : p.isAbsolute = true → dir.isAbsolute = true) :
    ∃ up names, (∀ s ∈ names, IsName s) ∧
      ((seenFrom p.normalize dir).lossy = ofComponents (route up names) ∨
        route up names = [] ∧ (seenFrom p.normalize dir).lossy = ⟨[dot]⟩) := by
  obtain ⟨up, names, hn, hs⟩ := seenFrom_eq_route p dir h
  refine ⟨up, names.map (List.map Utf8.Symbol.lossy), ?_, ?_⟩
  · intro s hs
    obtain ⟨t, ht, rfl⟩ := List.mem_map.mp hs
    exact isName_map_lossy (hn t ht)
  · obtain hs | ⟨hr, hs⟩ := hs
    · exact Or.inl (by rw [hs, lossy_ofComponents_route])
    · obtain ⟨hup, hnames⟩ := List.append_eq_nil_iff.mp hr
      refine Or.inr ⟨?_, by rw [hs]; rfl⟩
      rw [List.map_eq_nil_iff.mp hnames, route, hup]
      rfl

theorem startsWithDot_ofComponents_route (up : Nat) (names : List Segment)
    (h : ∀ s ∈ names, IsName s) :
    (ofComponents (route up names)).startsWithDot = true ↔ up ≠ 0 := by
  rw [startsWithDot, components_ofComponents_steps _ (isStep_of_mem_route up names h)]
  cases up with
  | zero => cases names <;> simp [route]
  | succ n => simp [route, List.replicate_succ]

def opening (up : Nat) : List Segment :=
  if up = 0 then [[dot]] else List.replicate up [dot, dot]

theorem ofChars_spellRelative (p dir : Path) :
    ofChars (spellRelative p dir) =
      if (seenFrom p dir).lossy.startsWithDot then (seenFrom p dir).lossy
      else ⟨dot :: slash :: (seenFrom p dir).lossy.chars⟩ := by
  rw [spellRelative_eq, startsWithDot_lossy, spelledPath]
  split_ifs <;> rfl

theorem spellRelative_congr {p q dir dir' : Path}
    (h : (seenFrom p dir).lossy = (seenFrom q dir').lossy) :
    spellRelative p dir = spellRelative q dir' := by
  apply ofChars_injective
  rw [ofChars_spellRelative, ofChars_spellRelative, h]

theorem segments_spellRelative (p dir : Path) (up : Nat) (names : List Segment)
    (hn : ∀ s ∈ names, IsName s) (hr : route up names ≠ [])
    (hs : (seenFrom p dir).lossy = ofComponents (route up names)) :
    segments (ofChars (spellRelative p dir)).chars = opening up ++ names := by
  have ht := segments_ofComponents _ hr (isStep_of_mem_route up names hn)
  rw [map_chars_route] at ht
  have hd := startsWithDot_ofComponents_route up names hn
  rw [ofChars_spellRelative, hs, opening]
  split_ifs with h h0 h0
  · exact absurd h0 (hd.mp h)
  · exact ht
  · change segments ([dot] ++ slash :: _) = _
    rw [segments_append_slash, ht, h0]
    rfl
  · exact absurd (hd.mpr h0) h

/-- The route that leads nowhere is spelled with or without a slash. -/
theorem spellRelative_of_nowhere (p dir : Path)
    (h : (seenFrom p dir).lossy = ofComponents [] ∨ (seenFrom p dir).lossy = ⟨[dot]⟩) :
    spellRelative p dir = ['.', '/'] ∨ spellRelative p dir = ['.'] := by
  refine h.imp (fun h => ?_) fun h => ?_
  · apply ofChars_injective
    rw [ofChars_spellRelative, h]
    rfl
  · apply ofChars_injective
    rw [ofChars_spellRelative, h]
    rfl

theorem withSlash_cases (target out : List Char) :
    withSlash target out = out ∨
      out.getLast? ≠ some '/' ∧ withSlash target out = out ++ ['/'] := by
  rw [withSlash]
  split_ifs with h
  · exact Or.inr ⟨h.2, rfl⟩
  · exact Or.inl rfl

theorem withSlash_dot_slash (target : List Char) : withSlash target ['.', '/'] = ['.', '/'] := by
  rw [withSlash, if_neg (fun h => h.2 rfl)]

theorem segments_withSlash (target out : List Char) :
    ∃ tail, segments (ofChars (withSlash target out)).chars = segments (ofChars out).chars ++ tail ∧
      (tail = [] ∨ tail = [[]]) := by
  obtain h | ⟨-, h⟩ := withSlash_cases target out
  · exact ⟨[], by rw [h, List.append_nil], Or.inl rfl⟩
  · refine ⟨[[]], ?_, Or.inr rfl⟩
    rw [h, ofChars_append]
    exact segments_append_slash _ _

/-- A relative answer has the segments of a route, and an empty one behind a slash at its end. -/
theorem segments_spell (target : List Char) (p dir : Path)
    (h : p.isAbsolute = true → dir.isAbsolute = true) :
    ∃ up names tail,
      segments (ofChars (spell target p dir true)).chars = opening up ++ names ++ tail ∧
      (∀ s ∈ names, IsName s) ∧ (tail = [] ∨ tail = [[]]) := by
  obtain ⟨up, names, hn, hs⟩ := lossy_seenFrom_eq_route p dir h
  rw [spell_eq, if_pos rfl]
  by_cases hr : route up names = []
  · rw [hr] at hs
    obtain ht | ht := spellRelative_of_nowhere _ _ (hs.imp_right And.right)
    · exact ⟨0, [], [[]], by rw [ht, withSlash_dot_slash]; rfl, by simp, Or.inr rfl⟩
    · obtain ⟨tail, hw, htail⟩ := segments_withSlash target ['.']
      exact ⟨0, [], tail, by rw [ht, hw]; rfl, by simp, htail⟩
  · have hs : (seenFrom p.normalize dir).lossy = ofComponents (route up names) :=
      hs.resolve_right fun h => hr h.1
    obtain ⟨tail, hw, htail⟩ := segments_withSlash target (spellRelative p.normalize dir)
    exact ⟨up, names, tail, by rw [hw, segments_spellRelative _ _ up names hn hr hs], hn, htail⟩

/-- A relative specifier as it should stand in a file. A slash at its end leaves an empty segment
there, and no other segment is empty. -/
structure Canonical (s : String) : Prop where
  isRelative : Specifier.isRelative s = true
  noEmptySegment : [] ∉ (segments (Path.ofString s).chars).dropLast
  dotFirst : [dot] ∉ (segments (Path.ofString s).chars).tail
  parentsFirst : [dot, dot] ∉ (segments (Path.ofString s).chars).dropWhile (· = [dot, dot])

instance (s : String) : Decidable (Canonical s) :=
  decidable_of_iff (Specifier.isRelative s = true ∧
    [] ∉ (segments (Path.ofString s).chars).dropLast ∧
      [dot] ∉ (segments (Path.ofString s).chars).tail ∧
      [dot, dot] ∉ (segments (Path.ofString s).chars).dropWhile (· = [dot, dot]))
    ⟨fun ⟨h1, h2, h3, h4⟩ => ⟨h1, h2, h3, h4⟩, fun ⟨h1, h2, h3, h4⟩ => ⟨h1, h2, h3, h4⟩⟩

theorem canonical_of_segments (s : String) (up : Nat) (names tail : List Segment)
    (hs : segments (Path.ofString s).chars = opening up ++ names ++ tail)
    (hn : ∀ t ∈ names, IsName t)
    (ht : tail = [] ∨ tail = [[]]) : Canonical s := by
  have hdot : [dot] ∉ names := fun h => (hn _ h).2.1 rfl
  have hup : [dot, dot] ∉ names := fun h => (hn _ h).2.2.1 rfl
  have hempty : [] ∉ names := fun h => (hn _ h).1 rfl
  have htail (t : Segment) (h : t ≠ []) : t ∉ tail := by
    obtain rfl | rfl := ht <;> simp [h]
  constructor
  · rw [Specifier.isRelative_iff, hs]
    cases up <;> simp [opening, List.replicate_succ]
  · have hsub : ∀ t ∈ (segments (Path.ofString s).chars).dropLast, t ∈ opening up ++ names := by
      intro t h
      rw [hs] at h
      obtain rfl | rfl := ht
      · exact List.dropLast_subset _ (by simpa using h)
      · rwa [List.dropLast_concat] at h
    intro h
    have hm := hsub [] h
    rw [List.mem_append, opening] at hm
    obtain hm | hm := hm
    · split_ifs at hm <;> simp at hm
    · exact hempty hm
  · rw [hs]
    cases up with
    | zero => simp [opening, hdot, htail]
    | succ n => simp [opening, List.replicate_succ, hdot, htail]
  · rw [hs]
    cases up with
    | zero => simp [opening, hup, htail]
    | succ n =>
      have hall : ∀ t ∈ opening (n + 1), (decide (t = [dot, dot])) = true := by
        intro t h
        simpa using List.eq_of_mem_replicate h
      rw [List.append_assoc, List.dropWhile_append_of_pos hall]
      intro h
      have hm := (List.dropWhile_sublist _).subset h
      rw [List.mem_append] at hm
      exact hm.elim hup (htail _ (by simp))

theorem canonical_spell (target : List Char) (p dir : Path)
    (h : p.isAbsolute = true → dir.isAbsolute = true) :
    Canonical (String.ofList (spell target p dir true)) := by
  obtain ⟨up, names, tail, hs, hn, ht⟩ := segments_spell target p dir h
  exact canonical_of_segments _ up names tail
    (by rwa [ofString_ofList]) hn ht

theorem withSlash_withSlash (target out : List Char) :
    withSlash (withSlash target out) out = withSlash target out := by
  obtain h | ⟨hl, h⟩ := withSlash_cases target out
  · rw [h, withSlash, if_neg (fun hc => hc.2 hc.1)]
  · rw [h, withSlash, if_pos ⟨List.getLast?_concat, hl⟩]

/-- A spelling does not depend on the directory any more, and keeps its slash. -/
theorem spell_spell (target : List Char) (p dir dir' : Path)
    (h : p.isAbsolute = true → dir.isAbsolute = true) :
    spell (spell target p dir true) (ofChars (spell target p dir true)) dir' true =
      spell target p dir true := by
  obtain ⟨up, names, hn, hs⟩ := lossy_seenFrom_eq_route p dir h
  have hstep := isStep_of_mem_route up names hn
  have hsteps : (seenFrom p.normalize dir).lossy.steps = route up names := by
    obtain hs | ⟨hr, hs⟩ := hs
    · rw [hs, (steps_ofComponents _ hstep).1]
    · rw [hs, hr]
      rfl
  have hnorm : (ofChars (spell target p dir true)).normalize = ofComponents (route up names) := by
    rw [Path.normalize, simplify_components_of_relative _ (isAbsolute_spell_relative _ _ _),
      steps_spell_relative, hsteps, simplify_route]
  rw [spell_eq (spell target p dir true), if_pos rfl, hnorm]
  have ha := (steps_ofComponents _ hstep).2
  by_cases hr : route up names = []
  · -- what leads nowhere is a lone dot from now on
    have hdot : spellRelative (ofComponents (route up names)) dir' = ['.'] := by
      rw [hr]
      rfl
    rw [hr] at hs
    rw [hdot, spell_eq, if_pos rfl]
    obtain ht | ht := spellRelative_of_nowhere _ _ (hs.imp_right And.right)
    · rw [ht, withSlash_dot_slash]
      rfl
    · rw [ht, withSlash_withSlash]
  · have hs : (seenFrom p.normalize dir).lossy = ofComponents (route up names) :=
      hs.resolve_right fun h => hr h.1
    have hs' : seenFrom (ofComponents (route up names)) dir' = ofComponents (route up names) := by
      have he : (ofComponents (route up names)).isEmpty = false := by
        rw [Bool.eq_false_iff, ne_eq, Path.isEmpty_iff, ofComponents_eq_empty_iff _ hstep]
        exact hr
      simp [seenFrom, ha, he]
    have ht : spellRelative (ofComponents (route up names)) dir' =
        spellRelative p.normalize dir :=
      spellRelative_congr (by rw [hs', ← hs, lossy_lossy])
    rw [ht, spell_eq, if_pos rfl, withSlash_withSlash]

theorem destination?_of_isRelative (r : Resolver) (target : String) (real : Path)
    (h : Specifier.isRelative target = true) :
    r.destination? target real = .ok (some (.ofString target)) := by
  have hc : r.specifierAt target real = .relative := if_pos h
  rw [destination?, hc]

/-- Relative answers are their own relative answers. -/
theorem resolve_resolve (r : Resolver) (target answer : String) (origin : Path)
    (ho : ∀ real, r.realFile origin = .ok real → real.isAbsolute = true)
    (h : r.resolve target origin true = .ok answer) :
    r.resolve answer origin true = .ok answer := by
  cases hf : r.realFile origin with
  | error e =>
    rw [resolve_of_realFile_error hf] at h
    cases h
  | ok real =>
    have hd := isAbsolute_originDir real (ho real hf)
    cases hp : r.destination? target real with
    | error e =>
      rw [resolve_of_destination_error hf hp] at h
      cases h
    | ok path? =>
      rw [resolve_of_destination hf hp] at h
      cases path? with
      | none =>
        cases h
        exact resolve_of_destination hf hp
      | some path =>
        obtain rfl := Except.ok.inj h
        have hrel := (canonical_spell target.toList path (originDir real) fun _ => hd).isRelative
        have hs := spell_spell target.toList path (originDir real) (originDir real) fun _ => hd
        rw [write, resolve_of_destination hf (r.destination?_of_isRelative _ real hrel), write,
          ofString_ofList, String.toList_ofList]
        exact congrArg (Except.ok ∘ String.ofList) hs

theorem resolve_resolve_linked :
    (∀ real, linked.realFile (.ofString "/l.js") = .ok real → real.isAbsolute = true) ∧
    linked.resolve "~" (.ofString "/l.js") true = .ok "./" ∧
    linked.resolve "./" (.ofString "/l.js") true = .ok "./" := by
  have ho : ∀ real, linked.realFile (.ofString "/l.js") = .ok real → real.isAbsolute = true := by
    intro real h
    cases h
    rfl
  have h : linked.resolve "~" (.ofString "/l.js") true = .ok "./" := by decide
  exact ⟨ho, h, resolve_resolve linked _ _ _ ho h⟩

theorem isAbsolute_originDir_eq (real : Path) : (originDir real).isAbsolute = real.isAbsolute := by
  cases h : real.isAbsolute with
  | true => exact isAbsolute_originDir real h
  | false =>
    rw [originDir]
    cases hp : real.parent? with
    | none => exact h
    | some q => exact parent?_of_relative real q h hp

/-- From a relative directory there is no way to an absolute path. What is written is the path
itself, behind a dot and a slash. -/
theorem spell_of_relative_dir (target : List Char) (p dir : Path) (hp : p.isAbsolute = true)
    (hd : dir.isAbsolute = false) :
    spell target p dir true = withSlash target ('.' :: '/' :: p.normalize.shown) := by
  have hn : p.normalize.isAbsolute = true := by rw [isAbsolute_normalize, hp]
  have hs : seenFrom p.normalize dir = p.normalize := by
    rw [seenFrom, if_pos hn, relativeTo_of_relative _ dir hn hd, normalize_normalize]
  have hdot : ¬ p.normalize.startsWithDot = true := by
    intro h
    rw [isAbsolute_of_startsWithDot _ h] at hn
    cases hn
  rw [spell_eq, if_pos rfl, spellRelative_eq, spelledPath, hs, if_neg hdot]
  rfl

theorem not_canonical_of_relative_dir (target : List Char) (p dir : Path)
    (hp : p.isAbsolute = true) (hd : dir.isAbsolute = false) :
    ¬ Canonical (String.ofList (spell target p dir true)) := by
  have hn : p.normalize.lossy.isAbsolute = true := by
    rw [isAbsolute_lossy, isAbsolute_normalize, hp]
  obtain ⟨cs, hcs⟩ := (isAbsolute_iff _).mp hn
  obtain ⟨tail, hw, -⟩ := segments_withSlash target ('.' :: '/' :: p.normalize.shown)
  have hseg : segments (ofChars (spell target p dir true)).chars =
      [dot] :: [] :: (segments cs ++ tail) := by
    rw [spell_of_relative_dir target p dir hp hd, hw]
    change segments (dot :: slash :: p.normalize.lossy.chars) ++ tail = _
    rw [hcs]
    simp [segments]
  intro hc
  apply hc.noEmptySegment
  rw [ofString_ofList, hseg, List.dropLast_cons_of_ne_nil (by simp),
    List.dropLast_cons_of_ne_nil (by simp [segments_ne_nil])]
  simp

/-- A relative answer is canonical, and leads to where its specifier leads, just if the importing
file has an absolute path or the specifier is relative itself. -/
theorem canonical_iff (r : Resolver) (target answer : String) (origin real : Path)
    (hr : ∀ p ∈ r.packages, p.root.isAbsolute = true) (hf : r.realFile origin = .ok real)
    (hp : ¬ r.PassesThrough target real) (h : r.resolve target origin true = .ok answer) :
    (Canonical answer ↔ real.isAbsolute = true ∨ Specifier.isRelative target = true) ∧
    (Canonical answer → ∃ path, r.destination? target real = .ok (some path) ∧
      ((originDir real).lossy.join (.ofString answer)).normalize =
        ((originDir real).join path).normalize.lossy) := by
  have hd := isAbsolute_originDir_eq real
  cases hdest : r.destination? target real with
  | error e =>
    rw [resolve_of_destination_error hf hdest] at h
    cases h
  | ok path? =>
    cases path? with
    | none => exact absurd ((r.destination?_eq_none_iff target real).mp hdest) hp
    | some path =>
      rw [resolve_of_destination hf hdest] at h
      obtain rfl := Except.ok.inj h
      have hiff : Canonical (write target real true (some path)) ↔
          (path.isAbsolute = true → (originDir real).isAbsolute = true) := by
        constructor
        · intro hc ha
          by_contra hnd
          exact not_canonical_of_relative_dir _ _ _ ha (by simpa using hnd) hc
        · exact canonical_spell target.toList path (originDir real)
      refine ⟨hiff.trans ?_, ?_⟩
      · rw [hd]
        obtain ⟨hrel, rfl⟩ | ⟨hrel, q, hq, rfl⟩ := r.destination?_eq_some target real path hr hdest
        · simp [hrel, Specifier.isAbsolute_of_isRelative target hrel]
        · simp [hrel, isAbsolute_normalize, hq]
      · intro hc
        refine ⟨path, rfl, ?_⟩
        rw [ofString_write]
        exact normalize_join_spell_relative _ _ _ (hiff.mp hc)

def unlinked : Resolver where
  settings := { resolveLinks := false }
  packages := [⟨some "b", .ofString "/r/b", "src", none, "src", "~"⟩]
  probe := ⟨fun _ => .ok none, fun _ => .ok false⟩

theorem canonical_iff_unlinked :
    (∀ p ∈ unlinked.packages, p.root.isAbsolute = true) ∧
    unlinked.realFile (.ofString "a/../src/f.js") = .ok (.ofString "src/f.js") ∧
    ¬ unlinked.PassesThrough ".././//lib/../" (.ofString "src/f.js") ∧
    unlinked.resolve ".././//lib/../" (.ofString "a/../src/f.js") true = .ok "../" ∧
    Canonical "../" := by
  have hr : ∀ p ∈ unlinked.packages, p.root.isAbsolute = true := by decide
  have hf : unlinked.realFile (.ofString "a/../src/f.js") = .ok (.ofString "src/f.js") := by decide
  have hp : ¬ unlinked.PassesThrough ".././//lib/../" (.ofString "src/f.js") := by
    rw [← destination?_eq_none_iff]
    decide
  have h : unlinked.resolve ".././//lib/../" (.ofString "a/../src/f.js") true = .ok "../" := by
    decide
  exact ⟨hr, hf, hp, h, (canonical_iff unlinked _ _ _ _ hr hf hp h).1.mpr (Or.inr (by decide))⟩

/-- A file with a relative path gets the absolute path of another package as if it lay below its own
directory. -/
theorem absolute_path_below_relative_origin :
    ¬ unlinked.PassesThrough "b/x" (.ofString "src/f.js") ∧
    unlinked.resolve "b/x" (.ofString "src/f.js") true = .ok ".//r/b/src/x" ∧
    ¬ Canonical ".//r/b/src/x" := by
  refine ⟨?_, by decide, by decide⟩
  rw [← destination?_eq_none_iff]
  decide

end Monorepo.Resolver
