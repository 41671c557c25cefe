import Monorepo.Proofs.Outcome
import Monorepo.Proofs.Resolver.RelativeTarget

/-! A slash behind a specifier. No name and no token ends in a slash, so the slash falls to what
follows them and names nothing there: the destination stays, and only the slash of the answer
tells. -/
namespace Monorepo
open Monorepo.Path Component

/-- A token that does not end in a slash leaves a slash at the end to what follows it. -/
theorem stripToken?_append_slash (t k : List Char) (hk : k.getLast? ≠ some '/') :
    stripToken? (t ++ ['/']) k = (stripToken? t k).map (· ++ ['/']) := by
  cases hs : stripToken? t k with
  | some u =>
    obtain ⟨hne, rfl, hu⟩ := (stripToken?_eq_some_iff _ _ _).mp hs
    refine (stripToken?_eq_some_iff _ _ _).mpr ⟨hne, List.append_assoc _ _ _, Or.inr ?_⟩
    obtain rfl | ⟨cs, rfl⟩ := hu
    · exact ⟨[], rfl⟩
    · exact ⟨cs ++ ['/'], rfl⟩
  | none =>
    cases hs' : stripToken? (t ++ ['/']) k with
    | none => rfl
    | some rest =>
      exfalso
      obtain ⟨hne, ht, hrest⟩ := (stripToken?_eq_some_iff _ _ _).mp hs'
      cases rest using List.reverseRecOn with
      | nil =>
        rw [List.append_nil] at ht
        exact hk (ht ▸ List.getLast?_concat)
      | append_singleton u c =>
        rw [← List.append_assoc] at ht
        obtain ⟨rfl, -⟩ := List.append_inj' ht rfl
        have hu : u = [] ∨ ∃ cs, u = '/' :: cs := by
          cases u with
          | nil => exact Or.inl rfl
          | cons d u => exact Or.inr ⟨u, by simpa using hrest⟩
        rw [(stripToken?_eq_some_iff _ _ _).mpr ⟨hne, rfl, hu⟩] at hs
        cases hs

theorem trimSlashes_append_slash_eq_nil_iff (cs : List Char) :
    trimSlashes (cs ++ ['/']) = [] ↔ trimSlashes cs = [] := by
  simp only [trimSlashes, List.dropWhile_eq_nil_iff, List.mem_append, List.mem_singleton,
    decide_eq_true_eq]
  constructor
  · exact fun h c hc => h c (Or.inl hc)
  · exact fun h c hc => hc.elim (h c) id

/-- Joined to a directory, what follows a token leads to the same place with a slash behind it. -/
theorem normalize_join_trimSlashes_append (base : Path) (cs : List Char) :
    (base.join (.ofChars (trimSlashes (cs ++ ['/'])))).normalize =
      (base.join (.ofChars (trimSlashes cs))).normalize := by
  apply normalize_congr
  rw [simplify_components_join base _ (isAbsolute_trimSlashes _),
    simplify_components_join base _ (isAbsolute_trimSlashes _), steps_trimSlashes,
    steps_trimSlashes, ofChars_append]
  exact congrArg (fun steps => simplify (base.components ++ steps)) (steps_append_last _)

namespace Specifier

def append : Specifier → List Char → Specifier
  | aliased p rest, cs => aliased p (rest ++ cs)
  | ownName p rest, cs => ownName p (rest ++ cs)
  | s, _ => s

theorem isRelative_append_slash (t : String) : isRelative (t ++ "/") = isRelative t := by
  rw [isRelative, isRelative, String.toList_append, show "/".toList = ['/'] from rfl,
    stripToken?_append_slash _ _ (by decide), stripToken?_append_slash _ _ (by decide),
    Option.isSome_map, Option.isSome_map]

end Specifier

def Package.Unslashed (p : Package) : Prop :=
  (p.name.getD "").toList.getLast? ≠ some '/' ∧ p.aliasToken.toList.getLast? ≠ some '/'

instance (p : Package) : Decidable p.Unslashed := inferInstanceAs (Decidable (_ ∧ _))

theorem Specifier.classify_append_slash (s : Settings) (o : Option Package) (t : String)
    (h : ∀ p, o = some p → p.Unslashed) :
    classify s o (t ++ "/") = (classify s o t).append ['/'] := by
  rw [classify.eq_def, classify.eq_def s o t, isRelative_append_slash, String.toList_append,
    show "/".toList = ['/'] from rfl]
  by_cases hr : isRelative t = true
  · rw [if_pos hr, if_pos hr]
    rfl
  · rw [if_neg hr, if_neg hr]
    cases o with
    | none => rfl
    | some p =>
      obtain ⟨hname, halias⟩ := h p rfl
      dsimp only
      rw [stripToken?_append_slash _ _ halias, stripToken?_append_slash _ _ hname]
      cases stripToken? t.toList p.aliasToken.toList with
      | some rest => cases s.resolveAliases <;> rfl
      | none =>
        cases stripToken? t.toList (p.name.getD "").toList with
        | some rest => cases s.resolveOwnName <;> rfl
        | none => rfl

namespace Resolver

variable {r : Resolver}

theorem packageNamed?_append_slash (h : ∀ p ∈ r.packages, p.Unslashed) (t : List Char) :
    r.packageNamed? (t ++ ['/']) =
      (r.packageNamed? t).map fun x => (x.1, x.2.1, x.2.2 ++ ['/']) := by
  have hzip : ∀ x ∈ r.packages.zipIdx, x.1.Unslashed := fun ⟨p, n⟩ hx =>
    h p (List.mem_of_getElem? (List.mk_mem_zipIdx_iff_getElem?.mp hx))
  rw [packageNamed?, packageNamed?]
  generalize r.packages.zipIdx = l at hzip
  induction l with
  | nil => rfl
  | cons x l ih =>
    rw [List.forall_mem_cons] at hzip
    obtain ⟨p, n⟩ := x
    have hp := stripToken?_append_slash t _ hzip.1.1
    rw [List.findSome?_cons, List.findSome?_cons, ih hzip.2]
    dsimp only at hp ⊢
    rw [hp]
    cases stripToken? t (p.name.getD "").toList <;> rfl

theorem packagePath?_append_slash (p : Package) (cs : List Char) (isThere : Bool) :
    r.packagePath? p (trimSlashes (cs ++ ['/'])) isThere =
      r.packagePath? p (trimSlashes cs) isThere := by
  simp only [packagePath?, directCandidate, trimSlashes_append_slash_eq_nil_iff,
    normalize_join_trimSlashes_append]

theorem modulePath?_append_slash (h : ∀ p ∈ r.packages, p.Unslashed)
    (origin? : Option (Package × Nat)) (t : List Char) :
    r.modulePath? origin? (t ++ ['/']) = r.modulePath? origin? t := by
  rw [modulePath?, modulePath?, packageNamed?_append_slash h]
  cases r.packageNamed? t with
  | none => rfl
  | some x =>
    obtain ⟨p, n, rest⟩ := x
    simp only [Option.map_some, directCandidate, normalize_join_trimSlashes_append,
      packagePath?_append_slash]

theorem normalize_ofString_append_slash (t : String) (ht : t ≠ "") :
    (Path.ofString (t ++ "/")).normalize = (Path.ofString t).normalize := by
  have hne : (Path.ofString t).chars ≠ [] := fun h =>
    ht (String.toList_eq_nil_iff.mp (List.map_eq_nil_iff.mp h))
  have happend : Path.ofString (t ++ "/") = ⟨(Path.ofString t).chars ++ [slash]⟩ :=
    ofString_append t "/"
  apply normalize_congr
  rw [happend, components_eq, components_eq, head_append_slash _ _ hne, steps_append_last]

/-- A specifier stands for one place, with and without a slash behind it. -/
theorem map_normalize_destination?_append_slash (h : ∀ p ∈ r.packages, p.Unslashed)
    (target : String) (real : Path) :
    (r.destination? (target ++ "/") real).map (Option.map normalize) =
      (r.destination? target real).map (Option.map normalize) := by
  have hspec : r.specifierAt (target ++ "/") real = (r.specifierAt target real).append ['/'] := by
    refine Specifier.classify_append_slash r.settings _ target fun p ho => ?_
    obtain ⟨⟨q, n⟩, hq, rfl⟩ := Option.map_eq_some_iff.mp ho
    exact h q (mem_of_packageOf? hq)
  rw [destination?, destination?, hspec]
  cases hs : r.specifierAt target real with
  | relative =>
    have hne : target ≠ "" := by
      rintro rfl
      exact absurd (Specifier.isRelative_of_classify _ _ _ hs) (by decide)
    exact congrArg (fun p => Except.ok (some p)) (normalize_ofString_append_slash target hne)
  | aliased p rest =>
    simp only [Specifier.append, sourcesPath, normalize_join_trimSlashes_append]
  | ownName p rest =>
    simp only [Specifier.append, sourcesPath, normalize_join_trimSlashes_append]
  | module =>
    simp only [Specifier.append, String.toList_append, show "/".toList = ['/'] from rfl,
      modulePath?_append_slash h]

def slashed (s : String) : String := if s.toList.getLast? = some '/' then s else s ++ "/"

theorem withSlash_append_slash (t out : List Char) (ht : t.getLast? ≠ some '/') :
    String.ofList (withSlash (t ++ ['/']) out) = slashed (String.ofList (withSlash t out)) := by
  have hout : withSlash t out = out := if_neg fun h => ht h.1
  rw [hout, slashed, String.toList_ofList, withSlash, List.getLast?_concat]
  by_cases hl : out.getLast? = some '/'
  · rw [if_neg fun h => h.2 hl, if_pos hl]
  · rw [if_pos ⟨rfl, hl⟩, if_neg hl, String.ofList_append]

theorem write_append_slash {target : String} (ht : target.toList.getLast? ≠ some '/')
    (real : Path) (relative : Bool) {path? path?' : Option Path}
    (h : path?'.map normalize = path?.map normalize) :
    write (target ++ "/") real relative path?' = slashed (write target real relative path?) := by
  cases path? with
  | none =>
    obtain rfl := Option.map_eq_none_iff.mp h
    exact (if_neg ht).symm
  | some p =>
    obtain ⟨q, rfl, hq⟩ := Option.map_eq_some_iff.mp h
    rw [write, write, String.toList_append, spell_eq, spell_eq, hq]
    exact withSlash_append_slash target.toList _ ht

theorem resolve_append_slash (h : ∀ p ∈ r.packages, p.Unslashed) (target : String)
    (ht : target.toList.getLast? ≠ some '/') (origin : Path) (relative : Bool) :
    r.resolve (target ++ "/") origin relative = (r.resolve target origin relative).map slashed := by
  cases hf : r.realFile origin with
  | error e =>
    rw [resolve_of_realFile_error hf, resolve_of_realFile_error hf]
    rfl
  | ok real =>
    have hdest := map_normalize_destination?_append_slash h target real
    rw [resolve_of_realFile hf, resolve_of_realFile hf]
    cases hd : r.destination? target real with
    | error e =>
      rw [hd, Except.map, map_eq_error_iff] at hdest
      rw [hdest]
      rfl
    | ok path? =>
      rw [hd, Except.map, map_eq_ok_iff] at hdest
      obtain ⟨path?', hd', hn⟩ := hdest
      rw [hd']
      exact congrArg Except.ok (write_append_slash ht real relative hn)

/-- Only the way that leads nowhere is spelled with a slash at its end. -/
theorem spellRelative_eq_of_slash (p dir : Path) (h : p.isAbsolute = true → dir.isAbsolute = true)
    (hl : (spellRelative p.normalize dir).getLast? = some '/') :
    spellRelative p.normalize dir = ['.', '/'] := by
  obtain ⟨up, names, hn, hs⟩ := lossy_seenFrom_eq_route p dir h
  by_cases hr : route up names = []
  · rw [hr] at hs
    obtain hw | hw := spellRelative_of_nowhere _ _ (hs.imp_right And.right)
    · exact hw
    · rw [hw] at hl
      exact absurd hl (by decide)
  · -- a slash at the end would leave an empty segment, and no step is empty
    exfalso
    have hs : (seenFrom p.normalize dir).lossy = ofComponents (route up names) :=
      hs.resolve_right fun h => hr h.1
    obtain ⟨a, ha⟩ := List.getLast?_eq_some_iff.mp hl
    have hempty : [] ∈ segments (ofChars (spellRelative p.normalize dir)).chars := by
      rw [ha, ofChars_append]
      change [] ∈ segments (_ ++ slash :: [])
      rw [segments_append_slash]
      exact List.mem_append_right _ List.mem_cons_self
    rw [segments_spellRelative _ _ up names hn hr hs, List.mem_append, opening] at hempty
    obtain hup | hname := hempty
    · split_ifs at hup <;> simp at hup
    · exact (hn _ hname).1 rfl

/-- A spelling ends in a slash if the target does, and else only where it is of the directory itself
or of the root. -/
theorem getLast?_spell_iff (target : List Char) (p dir : Path) (relative : Bool)
    (hd : dir.isAbsolute = true) :
    (spell target p dir relative).getLast? = some '/' ↔
      target.getLast? = some '/' ∨ spell target p dir relative = ['.', '/'] ∨
        spell target p dir relative = ['/'] := by
  constructor
  · intro hl
    by_cases ht : target.getLast? = some '/'
    · exact Or.inl ht
    · right
      have hwith (out : List Char) : withSlash target out = out := if_neg fun h => ht h.1
      cases relative with
      | true =>
        rw [spell_eq, if_pos rfl, hwith] at hl ⊢
        exact Or.inl (spellRelative_eq_of_slash p dir (fun _ => hd) hl)
      | false =>
        rw [spell_absolute_eq, hwith] at hl ⊢
        rw [getLast?_shown_iff, getLast?_normalize_iff] at hl
        exact Or.inr (congrArg Path.shown hl)
  · rintro (ht | hs | hs)
    · rw [spell_eq]
      exact (getLast?_withSlash_iff _ _).mpr (Or.inl ht)
    · rw [hs]
      rfl
    · rw [hs]
      rfl

/-- A slash behind a specifier fails or passes as the specifier does, and puts a slash behind the
answer that does not end in one; no name and no alias token is to end in one. Where the specifier is
rewritten, its answer ends in a slash only if the specifier does, or if it is the directory of the
file or the root. -/
theorem resolve_trailing_slash (r : Resolver) (origin : Path) (relative : Bool)
    (hnames : ∀ p ∈ r.packages, p.Unslashed)
    (ho : ∀ real, r.realFile origin = .ok real → real.isAbsolute = true) :
    (∀ target : String, target.toList.getLast? ≠ some '/' →
      r.resolve (target ++ "/") origin relative =
        (r.resolve target origin relative).map slashed) ∧
    ∀ target real answer, r.realFile origin = .ok real → ¬ r.PassesThrough target real →
      r.resolve target origin relative = .ok answer →
      (answer.toList.getLast? = some '/' ↔
        target.toList.getLast? = some '/' ∨ answer = "./" ∨ answer = "/") := by
  refine ⟨fun target ht => resolve_append_slash hnames target ht origin relative, ?_⟩
  intro target real answer hf hp h
  rw [resolve_of_realFile hf, map_eq_ok_iff] at h
  obtain ⟨path?, hd, rfl⟩ := h
  cases path? with
  | none => exact absurd ((r.destination?_eq_none_iff target real).mp hd) hp
  | some path =>
    have hdir := isAbsolute_originDir real (ho real hf)
    rw [write, ← String.toList_inj, ← String.toList_inj, String.toList_ofList]
    exact getLast?_spell_iff target.toList path (originDir real) relative hdir

/-- The sources of the package are the directory of the file, and with or without a slash the alias
token stands for them. -/
theorem resolve_trailing_slash_linked :
    (∀ p ∈ linked.packages, p.Unslashed) ∧
    (∀ real, linked.realFile (.ofString "/l.js") = .ok real → real.isAbsolute = true) ∧
    linked.resolve "~/lib" (.ofString "/l.js") true = .ok "./lib" ∧
    linked.resolve "~/lib/" (.ofString "/l.js") true = .ok "./lib/" ∧
    linked.realFile (.ofString "/l.js") = .ok (.ofString "/r/a/x/../src//f.js") ∧
    ¬ linked.PassesThrough "~" (.ofString "/r/a/x/../src//f.js") ∧
    linked.resolve "~" (.ofString "/l.js") true = .ok "./" ∧
    ("./".toList.getLast? = some '/' ↔
      "~".toList.getLast? = some '/' ∨ "./" = "./" ∨ "./" = "/") := by
  have hnames : ∀ p ∈ linked.packages, p.Unslashed := by decide
  have ho : ∀ real, linked.realFile (.ofString "/l.js") = .ok real → real.isAbsolute = true := by
    intro real h
    cases h
    rfl
  have hlib : linked.resolve "~/lib" (.ofString "/l.js") true = .ok "./lib" := by decide
  have hf : linked.realFile (.ofString "/l.js") = .ok (.ofString "/r/a/x/../src//f.js") := by decide
  have hp : ¬ linked.PassesThrough "~" (.ofString "/r/a/x/../src//f.js") := by
    rw [← destination?_eq_none_iff]
    decide
  have hown : linked.resolve "~" (.ofString "/l.js") true = .ok "./" := by decide
  obtain ⟨hslash, honly⟩ := resolve_trailing_slash linked (.ofString "/l.js") true hnames ho
  have hlib' : linked.resolve ("~/lib" ++ "/") (.ofString "/l.js") true = _ :=
    hslash "~/lib" (by decide)
  rw [hlib] at hlib'
  exact ⟨hnames, ho, hlib, hlib', hf, hp, hown, honly _ _ _ hf hp hown⟩

end Resolver
end Monorepo
