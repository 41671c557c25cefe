import Monorepo.Proofs.Path.Lossy
import Monorepo.Proofs.Path.Parent
import Monorepo.Proofs.Resolver.Destination

/-! Spelled paths are read back. A spelling names the same steps as the path it was made from; dots
put in front and slashes put behind name nothing. -/
namespace Monorepo.Resolver
open Monorepo.Path

theorem isAbsolute_originDir (real : Path) (h : real.isAbsolute = true) :
    (originDir real).isAbsolute = true := by
  obtain ⟨-, hn⟩ | ⟨q, hq, ha, -⟩ := parent?_of_isAbsolute real h
  · rw [originDir, hn]
    exact h
  · rw [originDir, hq]
    exact ha

theorem isAbsolute_outputOr (p : Package) (mode : Mode) (otherwise : String)
    (hp : p.root.isAbsolute = true) : (p.outputOr mode otherwise).isAbsolute = true := by
  unfold Package.outputOr
  split <;> exact isAbsolute_join _ _ hp

variable (r : Resolver)

theorem packagePath?_eq_some (p : Package) (rest : List Char) (isThere : Bool) (path : Path)
    (hp : p.root.isAbsolute = true) (h : r.packagePath? p rest isThere = some path) :
    ∃ q : Path, q.isAbsolute = true ∧ path = q.normalize := by
  have hd (s : String) := isAbsolute_outputOr p r.settings.mode s hp
  unfold packagePath? at h
  split_ifs at h <;> cases h
  · exact ⟨_, hd p.entry, rfl⟩
  · exact ⟨_, isAbsolute_join _ _ hp, rfl⟩
  · exact ⟨_, isAbsolute_join _ _ (hd p.source), rfl⟩

/-- A specifier that is rewritten stands for itself, or for a normal absolute path. -/
theorem destination?_eq_some (target : String) (real path : Path)
    (hr : ∀ p ∈ r.packages, p.root.isAbsolute = true)
    (h : r.destination? target real = .ok (some path)) :
    (Specifier.isRelative target = true ∧ path = .ofString target) ∨
    (Specifier.isRelative target = false ∧
      ∃ q : Path, q.isAbsolute = true ∧ path = q.normalize) := by
  have hs := Specifier.classify_spec r.settings ((r.packageOf? real).map (·.1)) target
  have hsource (p : Package) (ho : (r.packageOf? real).map (·.1) = some p) (rest : List Char) :
      ∃ q : Path, q.isAbsolute = true ∧ sourcesPath p rest = q.normalize := by
    obtain ⟨⟨q, n⟩, hq, rfl⟩ := Option.map_eq_some_iff.mp ho
    have hm := mem_of_packageOf? hq
    exact ⟨_, isAbsolute_join _ _ (isAbsolute_join _ _ (hr q hm)), rfl⟩
  unfold destination? specifierAt at h
  cases hc : Specifier.classify r.settings ((r.packageOf? real).map (·.1)) target with
  | relative =>
    rw [hc] at h hs
    cases h
    exact Or.inl ⟨hs, rfl⟩
  | aliased p rest =>
    rw [hc] at h hs
    cases h
    exact Or.inr ⟨hs.2.1, hsource p hs.1 rest⟩
  | ownName p rest =>
    rw [hc] at h hs
    cases h
    exact Or.inr ⟨hs.2.1, hsource p hs.1 rest⟩
  | module =>
    rw [hc] at h hs
    refine Or.inr ⟨hs.1, ?_⟩
    dsimp only [modulePath?] at h
    cases hn : r.packageNamed? target.toList with
    | none => simp [hn] at h
    | some x =>
      obtain ⟨p, n, rest⟩ := x
      rw [hn] at h
      dsimp only at h
      split_ifs at h
      · cases h
      · cases hp : r.probe.present (directCandidate p (trimSlashes rest)) with
        | error e => simp [hp] at h
        | ok isThere =>
          rw [hp] at h
          have hm := mem_of_packageNamed? hn
          exact r.packagePath?_eq_some p _ isThere path (hr p hm) (Except.ok.inj h)

theorem isAbsolute_of_startsWithDot (q : Path) (h : q.startsWithDot = true) :
    q.isAbsolute = false := by
  rw [Bool.eq_false_iff]
  intro ha
  rw [startsWithDot, components_of_isAbsolute q ha] at h
  cases h

def seenFrom (p dir : Path) : Path :=
  if p.isAbsolute then p.relativeTo dir else if p.isEmpty then ⟨[dot]⟩ else p

def spelledPath (p dir : Path) : Path :=
  if (seenFrom p dir).startsWithDot then seenFrom p dir
  else ⟨dot :: slash :: (seenFrom p dir).chars⟩

theorem spellRelative_eq (p dir : Path) : spellRelative p dir = (spelledPath p dir).shown := by
  unfold spelledPath
  split_ifs with h
  · exact if_pos h
  · exact if_neg h

theorem isAbsolute_spelledPath (p dir : Path) : (spelledPath p dir).isAbsolute = false := by
  unfold spelledPath
  split_ifs with h
  · exact isAbsolute_of_startsWithDot _ h
  · rfl

theorem steps_spelledPath (p dir : Path) : (spelledPath p dir).steps = (seenFrom p dir).steps := by
  unfold spelledPath
  split_ifs
  · rfl
  · exact steps_dot_slash _

theorem shown_spelledPath_ne_nil (p dir : Path) : (spelledPath p dir).shown ≠ [] := by
  intro hc
  have hnil : (spelledPath p dir).chars = [] := List.map_eq_nil_iff.mp hc
  unfold spelledPath at hnil
  split_ifs at hnil with h
  rw [(isEmpty_iff _).mp (List.isEmpty_iff.mpr hnil)] at h
  cases h

theorem spellRelative_ne_nil (p dir : Path) : spellRelative p dir ≠ [] :=
  spellRelative_eq p dir ▸ shown_spelledPath_ne_nil p dir

theorem isAbsolute_spellRelative (p dir : Path) :
    (ofChars (spellRelative p dir)).isAbsolute = false := by
  rw [spellRelative_eq]
  exact (isAbsolute_lossy _).trans (isAbsolute_spelledPath p dir)

theorem steps_spellRelative (p dir : Path) :
    (ofChars (spellRelative p dir)).steps = (seenFrom p dir).lossy.steps := by
  rw [spellRelative_eq, steps_lossy (seenFrom p dir), ← steps_spelledPath]
  exact steps_lossy _

theorem steps_seenFrom_of_isAbsolute (p dir : Path) (h : p.isAbsolute = true) :
    (seenFrom p dir).steps = (p.relativeTo dir).steps := by
  rw [seenFrom, if_pos h]

theorem steps_seenFrom_of_relative (p dir : Path) (h : p.isAbsolute = false) :
    (seenFrom p dir).steps = p.steps := by
  rw [seenFrom, if_neg (by simp [h])]
  split_ifs with he
  · rw [(isEmpty_iff p).mp he]
    rfl
  · rfl

def withSlash (target out : List Char) : List Char :=
  if target.getLast? = some '/' ∧ out.getLast? ≠ some '/' then out ++ ['/'] else out

theorem spell_eq (target : List Char) (p dir : Path) (relative : Bool) :
    spell target p dir relative = withSlash target
      (if relative then spellRelative p.normalize dir else spellAbsolute p.normalize dir) := rfl

section
variable (target : List Char) {out : List Char}

theorem isAbsolute_withSlash (h : out ≠ []) :
    (ofChars (withSlash target out)).isAbsolute = (ofChars out).isAbsolute := by
  rw [withSlash]
  split_ifs
  · rw [ofChars_append]
    exact isAbsolute_append _ _ (mt List.map_eq_nil_iff.mp h)
  · rfl

theorem steps_withSlash (out : List Char) :
    (ofChars (withSlash target out)).steps = (ofChars out).steps := by
  rw [withSlash]
  split_ifs
  · rw [ofChars_append]
    exact steps_append_last _
  · rfl

theorem components_withSlash (h : out ≠ []) :
    (ofChars (withSlash target out)).components = (ofChars out).components := by
  rw [components_eq, components_eq, steps_withSlash]
  rw [withSlash]
  split_ifs
  · rw [ofChars_append]
    exact congrArg (· ++ _) (head_append_slash _ _ (mt List.map_eq_nil_iff.mp h))
  · rfl

end

theorem isAbsolute_spell_relative (target : List Char) (p dir : Path) :
    (ofChars (spell target p dir true)).isAbsolute = false := by
  rw [spell_eq, if_pos rfl, isAbsolute_withSlash _ (spellRelative_ne_nil _ _)]
  exact isAbsolute_spellRelative _ _

theorem steps_spell_relative (target : List Char) (p dir : Path) :
    (ofChars (spell target p dir true)).steps = (seenFrom p.normalize dir).lossy.steps := by
  rw [spell_eq, if_pos rfl, steps_withSlash, steps_spellRelative]

/-- The absolute spelling of a path is the text of the normal form of what it leads to from the
directory. -/
theorem spell_absolute_eq (target : List Char) (p dir : Path) :
    spell target p dir false = withSlash target (dir.join p).normalize.shown := by
  rw [spell_eq, if_neg (by simp), spellAbsolute, ← normalize_join_normalize dir p]
  split_ifs with h
  · rw [join_of_isAbsolute dir _ h, normalize_normalize]
  · rfl

theorem shown_ne_nil_of_isAbsolute {q : Path} (h : q.isAbsolute = true) : q.shown ≠ [] := by
  obtain ⟨cs, hcs⟩ := (isAbsolute_iff _).mp h
  simp [shown, Utf8.shown, hcs]

theorem spell_of_isAbsolute_join (target : List Char) (p dir : Path)
    (h : (dir.join p).isAbsolute = true) :
    (ofChars (spell target p dir false)).isAbsolute = true ∧
    (ofChars (spell target p dir false)).components = (dir.join p).normalize.lossy.components := by
  have ha : (dir.join p).normalize.isAbsolute = true := by rw [isAbsolute_normalize, h]
  have hne := shown_ne_nil_of_isAbsolute ha
  rw [spell_absolute_eq, isAbsolute_withSlash _ hne]
  exact ⟨(isAbsolute_lossy _).trans ha, components_withSlash _ hne⟩

theorem ofString_write (target : String) (real path : Path) (relative : Bool) :
    Path.ofString (write target real relative (some path)) =
      ofChars (spell target.toList path (originDir real) relative) := by
  exact ofString_ofList _

theorem isAbsolute_write (target : String) (real path : Path) (h : path.isAbsolute = true) :
    (Path.ofString (write target real false (some path))).isAbsolute = true := by
  have hj := join_of_isAbsolute (originDir real) path h
  rw [ofString_write]
  exact (spell_of_isAbsolute_join target.toList path (originDir real) (by rw [hj, h])).1

theorem spell_absolute (target : List Char) (p dir : Path) (hd : dir.isAbsolute = true) :
    (ofChars (spell target p dir false)).isAbsolute = true ∧
    (ofChars (spell target p dir false)).components = (dir.join p).normalize.lossy.components :=
  spell_of_isAbsolute_join target p dir (isAbsolute_join dir p hd)

def garbledRoot : Path := ⟨Utf8.ofString "/r/" ++ [.fault [0xff]]⟩

def garbled : Resolver where
  settings := { resolveLinks := false }
  packages := [⟨some "a", garbledRoot, "src", none, "src", "~"⟩]
  probe := ⟨fun _ => .ok none, fun _ => .ok false⟩

end Monorepo.Resolver
