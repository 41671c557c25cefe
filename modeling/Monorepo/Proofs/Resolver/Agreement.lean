import Monorepo.Proofs.Resolver.Spelling

/-! The two spellings of an answer agree. The relative one is read from the directory of the
importing file, whatever the probe says and however the file is spelled. -/
namespace Monorepo.Resolver
open Monorepo.Path Component

variable (p dir : Path)

theorem simplify_join_spelledPath_of_relative (hp : p.isAbsolute = false) :
    simplify (dir.join (spelledPath p.normalize dir)).components =
      simplify (dir.join p).components := by
  have hn : p.normalize.isAbsolute = false := by rw [isAbsolute_normalize, hp]
  rw [simplify_components_join _ _ (isAbsolute_spelledPath _ _), steps_spelledPath,
    steps_seenFrom_of_relative _ _ hn, steps_normalize_of_relative p hp,
    simplify_append_right _ _ (root_not_mem_steps p), simplify_components_join _ _ hp]

theorem simplify_join_spelledPath_of_isAbsolute (hp : p.isAbsolute = true)
    (hd : dir.isAbsolute = true) :
    simplify (dir.join (spelledPath p.normalize dir)).components =
      simplify (dir.join p).components := by
  have hn : p.normalize.isAbsolute = true := by rw [isAbsolute_normalize, hp]
  have hplace : (dir.join (spelledPath p.normalize dir)).place = p.normalize.place := by
    rw [place_join _ _ hd (isAbsolute_spelledPath _ _), steps_spelledPath,
      steps_seenFrom_of_isAbsolute _ _ hn, steps_relativeTo _ _ hn hd, foldl_lead_way]
  have hsimple : simplify p.components = simplify p.normalize.components := by
    rw [components_normalize, simplify_simplify]
  rw [simplify_components_of_isAbsolute _ (isAbsolute_join dir _ hd), hplace,
    join_of_isAbsolute dir p hp, hsimple, simplify_components_of_isAbsolute _ hn]

/-- Read from the directory, the path that is spelled leads to where `p` leads from there. -/
theorem normalize_join_spelledPath (h : p.isAbsolute = true → dir.isAbsolute = true) :
    (dir.join (spelledPath p.normalize dir)).normalize = (dir.join p).normalize := by
  apply normalize_congr
  cases hp : p.isAbsolute with
  | true => exact simplify_join_spelledPath_of_isAbsolute p dir hp (h hp)
  | false => exact simplify_join_spelledPath_of_relative p dir hp

/-- A spelling is a text. It is read from the text of the directory, and leads to the text of what
the path leads to. -/
theorem normalize_join_spell_relative (target : List Char)
    (h : p.isAbsolute = true → dir.isAbsolute = true) :
    (dir.lossy.join (ofChars (spell target p dir true))).normalize =
      (dir.join p).normalize.lossy := by
  have hsteps : (ofChars (spell target p dir true)).steps =
      (spelledPath p.normalize dir).lossy.steps := by
    rw [steps_spell_relative, steps_lossy, steps_lossy, steps_spelledPath]
  have hrel := isAbsolute_spelledPath p.normalize dir
  rw [← normalize_join_spelledPath p dir h, ← normalize_lossy, lossy_join]
  apply normalize_congr
  rw [simplify_components_join _ _ (isAbsolute_spell_relative _ _ _), hsteps,
    simplify_components_join _ _ ((isAbsolute_lossy _).trans hrel)]

/-- Both spellings of a path name one place. -/
theorem normalize_join_spell (target : List Char) (hd : dir.isAbsolute = true) :
    (dir.lossy.join (ofChars (spell target p dir true))).normalize =
      (ofChars (spell target p dir false)).normalize := by
  rw [normalize_join_spell_relative p dir target fun _ => hd, ← normalize_lossy]
  apply normalize_congr
  rw [(spell_absolute target p dir hd).2, ← normalize_lossy, components_normalize,
    simplify_simplify]

/-- Relative and absolute answers name one place. If one of them fails, so does the other, for the
same reason, and what passes through is left as it is in both. -/
def SpellingsAgree (r : Resolver) (target : String) (origin : Path) : Prop :=
  (∃ e, r.resolve target origin true = .error e ∧ r.resolve target origin false = .error e) ∨
  (∃ real, r.realFile origin = .ok real ∧ r.PassesThrough target real ∧
    r.resolve target origin true = .ok target ∧ r.resolve target origin false = .ok target) ∨
  (∃ real relative absolute, r.realFile origin = .ok real ∧
    r.resolve target origin true = .ok relative ∧
    r.resolve target origin false = .ok absolute ∧
    (Path.ofString absolute).isAbsolute = true ∧
    ((originDir real).lossy.join (.ofString relative)).normalize =
      (Path.ofString absolute).normalize)

/-- Nothing is asked of the packages. A root that is not absolute leads to paths that are read from
the directory of the file in both spellings. -/
theorem spellings_agree (r : Resolver) (target : String) (origin : Path)
    (ho : ∀ real, r.realFile origin = .ok real → real.isAbsolute = true) :
    r.SpellingsAgree target origin := by
  cases hf : r.realFile origin with
  | error e => exact Or.inl ⟨e, resolve_of_realFile_error hf, resolve_of_realFile_error hf⟩
  | ok real =>
    have hd := isAbsolute_originDir real (ho real hf)
    cases hp : r.destination? target real with
    | error e =>
      exact Or.inl ⟨e, resolve_of_destination_error hf hp, resolve_of_destination_error hf hp⟩
    | ok path? =>
      rw [SpellingsAgree, resolve_of_destination hf hp, resolve_of_destination hf hp]
      cases path? with
      | none =>
        have ht := (r.destination?_eq_none_iff target real).mp hp
        exact Or.inr (Or.inl ⟨real, hf, ht, rfl, rfl⟩)
      | some path =>
        refine Or.inr (Or.inr ⟨real, _, _, hf, rfl, rfl, ?_, ?_⟩)
        · rw [ofString_write]
          exact (spell_absolute target.toList path _ hd).1
        · rw [ofString_write, ofString_write]
          exact normalize_join_spell path _ target.toList hd

def linked : Resolver where
  settings := {}
  packages := [⟨some "a", .ofString "/r/a", "src", none, "src", "~"⟩]
  probe := ⟨fun _ => .ok (some (.ofString "/r/a/x/../src//f.js")), fun _ => .ok false⟩

theorem spellings_agree_linked :
    (∀ real, linked.realFile (.ofString "/l.js") = .ok real → real.isAbsolute = true) ∧
    linked.SpellingsAgree "~/../lib/" (.ofString "/l.js") := by
  have ho : ∀ real, linked.realFile (.ofString "/l.js") = .ok real → real.isAbsolute = true := by
    intro real h
    cases h
    rfl
  exact ⟨ho, spellings_agree linked _ _ ho⟩

example : linked.resolve "~/../lib/" (.ofString "/l.js") true = .ok "../lib/" := by decide

/-- Read from a directory that is no text, the relative spelling leads to another place than the
absolute one names. The root has no parent, and spellings from it are still read from it. -/
theorem spellings_disagree_garbled :
    (garbled.resolve "./x" (garbledRoot.join (.ofString "f.js")) true = .ok "./x" ∧
      garbled.resolve "./x" (garbledRoot.join (.ofString "f.js")) false = .ok "/r/\uFFFD/x" ∧
      (garbledRoot.join (.ofString "f.js")).parent? = some garbledRoot ∧
      (garbledRoot.join (.ofString "./x")).normalize ≠
        (Path.ofString "/r/\uFFFD/x").normalize) ∧
    garbled.resolve "./x" (.ofString "/") true = .ok "./x" ∧
      garbled.resolve "./x" (.ofString "/") false = .ok "/x" ∧
      (Path.ofString "/").parent? = none := by
  decide

end Monorepo.Resolver
