import Monorepo.Proofs.Resolver.Destination
import Monorepo.Resolver.Tools

/-! Requests that are replaced for a bundler. The alias token is asked for as the beginning of a
text, and the resolver asks for whole tokens; the two fit together if no name and no dots begin with
it. -/
namespace Monorepo

def StandsApart (token name : List Char) : Prop := ¬ token <+: name ∧ stripToken? token name = none

theorem standsApart_iff {token name : List Char} (ht : token ≠ []) :
    StandsApart token name ↔ ∀ cs, token <+: cs → stripToken? cs name = none := by
  constructor
  · rintro ⟨hbegins, hnone⟩ cs hcs
    by_contra hsome
    obtain ⟨rest, hrest⟩ := Option.ne_none_iff_exists'.mp hsome
    obtain ⟨hname, rfl, hr⟩ := (stripToken?_eq_some_iff _ _ _).mp hrest
    -- of two beginnings of one text, the one goes on with the other
    obtain h | ⟨mid, rfl⟩ := List.prefix_or_prefix_of_prefix hcs (List.prefix_append name rest)
    · exact hbegins h
    · refine absurd hnone (Option.ne_none_iff_exists'.mpr ⟨mid, ?_⟩)
      have hmid : mid <+: rest := (List.prefix_append_right_inj name).mp hcs
      refine (stripToken?_eq_some_iff _ _ _).mpr ⟨hname, rfl, ?_⟩
      cases mid with
      | nil => exact Or.inl rfl
      | cons c mid =>
        obtain ⟨after, rfl⟩ := hmid
        obtain hr | ⟨cs, hr⟩ := hr
        · cases hr
        · cases hr
          exact Or.inr ⟨mid, rfl⟩
  · intro h
    refine ⟨fun hp => ?_, h token (List.prefix_refl token)⟩
    have hname : name ≠ [] := by
      rintro rfl
      exact ht (List.prefix_nil.mp hp)
    have hself := (stripToken?_eq_some_iff name name []).mpr
      ⟨hname, (List.append_nil name).symm, Or.inl rfl⟩
    rw [h name hp] at hself
    cases hself

namespace Resolver
variable {r : Resolver} {request s : String} {issuer real : Path}

/-- The request is the alias token of the package that the file belongs to, or goes on behind it
with a slash, and aliases are resolved. -/
def IsAliasRequest (r : Resolver) (request : String) (real : Path) : Prop :=
  ∃ p n, r.packageOf? real = some (p, n) ∧ r.settings.resolveAliases = true ∧
    (request = p.aliasToken ∨ ∃ rest, request = p.aliasToken ++ "/" ++ rest)

def IsRelativeOrNamed (r : Resolver) (request : String) : Prop :=
  Specifier.isRelative request = true ∨
    ∃ p ∈ r.packages, stripToken? request.toList (p.name.getD "").toList ≠ none

/-- The alias token of the settings is no beginning of dots or names, nor has it one of them in
front. -/
structure TokenStandsApart (r : Resolver) : Prop where
  nonempty : r.settings.aliasToken.toList ≠ []
  dots : ∀ dots ∈ [['.'], ['.', '.']], StandsApart r.settings.aliasToken.toList dots
  names : ∀ p ∈ r.packages, StandsApart r.settings.aliasToken.toList (p.name.getD "").toList

theorem isRelative_eq_false_iff (request : String) :
    Specifier.isRelative request = false ↔
      ∀ dots ∈ [['.'], ['.', '.']], stripToken? request.toList dots = none := by
  simp [Specifier.isRelative]

theorem not_isRelativeOrNamed_iff :
    ¬ r.IsRelativeOrNamed request ↔
      (∀ dots ∈ [['.'], ['.', '.']], stripToken? request.toList dots = none) ∧
        ∀ p ∈ r.packages, stripToken? request.toList (p.name.getD "").toList = none := by
  rw [IsRelativeOrNamed, not_or, Bool.not_eq_true, isRelative_eq_false_iff]
  simp only [not_exists, not_and, ne_eq, not_not]

/-- The token stands apart just if no request that begins with it is relative or named. -/
theorem tokenStandsApart_iff (ht : r.settings.aliasToken.toList ≠ []) :
    r.TokenStandsApart ↔ ∀ request : String,
      r.settings.aliasToken.toList <+: request.toList → ¬ r.IsRelativeOrNamed request := by
  constructor
  · intro h request hrequest
    exact not_isRelativeOrNamed_iff.mpr
      ⟨fun dots hd => (standsApart_iff ht).mp (h.dots dots hd) _ hrequest,
        fun p hp => (standsApart_iff ht).mp (h.names p hp) _ hrequest⟩
  · intro h
    have hall (cs : List Char) (hcs : r.settings.aliasToken.toList <+: cs) :=
      not_isRelativeOrNamed_iff.mp (h (String.ofList cs) (by rwa [String.toList_ofList]))
    simp only [String.toList_ofList] at hall
    exact ⟨ht, fun dots hd => (standsApart_iff ht).mpr fun cs hcs => (hall cs hcs).1 dots hd,
      fun p hp => (standsApart_iff ht).mpr fun cs hcs => (hall cs hcs).2 p hp⟩

def BeginsWithDefault (r : Resolver) (text : String) : Prop :=
  r.settings.aliasToken.toList ≠ [] ∧ r.settings.aliasToken.toList <+: text.toList

instance (r : Resolver) (text : String) : Decidable (r.BeginsWithDefault text) :=
  inferInstanceAs (Decidable (_ ∧ _))

/-- Requests are resolved or left alone, by their first characters only. -/
theorem replaceRequest_eq (r : Resolver) (request : String) (issuer : Path) :
    r.replaceRequest request issuer =
      if r.BeginsWithDefault request then (r.resolve request issuer false).map some
      else .ok none := by
  by_cases h : r.BeginsWithDefault request
  · have hp := List.isPrefixOf_iff_prefix.mpr h.2
    rw [if_pos h, replaceRequest, if_neg (not_or.mpr ⟨h.1, not_not.mpr hp⟩)]
  · rw [if_neg h, replaceRequest, if_pos]
    by_contra hc
    obtain ⟨hne, hp⟩ := not_or.mp hc
    exact h ⟨hne, List.isPrefixOf_iff_prefix.mp (not_not.mp hp)⟩

theorem isAliasRequest_of_aliased {p : Package} {rest : List Char}
    (h : r.specifierAt request real = .aliased p rest) : r.IsAliasRequest request real := by
  have hs := Specifier.classify_spec r.settings ((r.packageOf? real).map (·.1)) request
  rw [show Specifier.classify _ _ _ = _ from h] at hs
  obtain ⟨ho, -, haliases, hstrip⟩ := hs
  obtain ⟨⟨p, n⟩, hp, rfl⟩ := Option.map_eq_some_iff.mp ho
  have hfront : IsInFront p.aliasToken request := by
    rw [isInFront_iff, hstrip]
    rfl
  exact ⟨p, n, hp, haliases, hfront.2⟩

/-- What is no alias has a destination only if it is relative or a package has its name. -/
theorem destination?_of_not_isRelativeOrNamed (h : ¬ r.IsRelativeOrNamed request)
    (ha : ∀ p rest, r.specifierAt request real ≠ .aliased p rest) :
    r.destination? request real = .ok none := by
  obtain ⟨hdots, hnames⟩ := not_isRelativeOrNamed_iff.mp h
  have hs := Specifier.classify_spec r.settings ((r.packageOf? real).map (·.1)) request
  rw [destination?]
  cases hc : r.specifierAt request real with
  | relative =>
    rw [show Specifier.classify _ _ _ = _ from hc] at hs
    exact absurd (Or.inl hs) h
  | aliased p rest => exact absurd hc (ha p rest)
  | ownName p rest =>
    rw [show Specifier.classify _ _ _ = _ from hc] at hs
    obtain ⟨ho, -, -, -, hstrip⟩ := hs
    obtain ⟨⟨q, n⟩, hq, rfl⟩ := Option.map_eq_some_iff.mp ho
    rw [hnames q (mem_of_packageOf? hq)] at hstrip
    cases hstrip
  | module =>
    have hnone : r.packageNamed? request.toList = none :=
      packageNamed?_eq_none_iff.mpr fun q hq => (stripToken?_eq_none_iff _ _).mp (hnames q hq)
    dsimp only [modulePath?]
    rw [hnone]

/-- A request is left to others if the token is not in front of it, or nothing stands for it. -/
theorem replaceRequest_of_not_aliased (hf : r.realFile issuer = .ok real)
    (hn : r.settings.aliasToken.toList <+: request.toList → ¬ r.IsRelativeOrNamed request)
    (ha : ∀ p rest, r.specifierAt request real ≠ .aliased p rest) :
    r.replaceRequest request issuer = .ok none ∨
      r.replaceRequest request issuer = .ok (some request) := by
  rw [replaceRequest_eq]
  by_cases h : r.BeginsWithDefault request
  · have hd := destination?_of_not_isRelativeOrNamed (hn h.2) ha
    rw [if_pos h, resolve_of_destination hf hd]
    exact Or.inr rfl
  · exact Or.inl (if_neg h)

theorem isAliasRequest_of_replaced (hf : r.realFile issuer = .ok real)
    (hn : r.settings.aliasToken.toList <+: request.toList → ¬ r.IsRelativeOrNamed request)
    (h : r.replaceRequest request issuer = .ok (some s)) (hne : s ≠ request) :
    r.IsAliasRequest request real := by
  by_contra hnot
  have ha (p : Package) (rest : List Char) : r.specifierAt request real ≠ .aliased p rest :=
    fun hc => hnot (isAliasRequest_of_aliased hc)
  obtain hnone | hsame := replaceRequest_of_not_aliased hf hn ha
  · rw [hnone] at h
    cases h
  · rw [hsame] at h
    cases h
    exact hne rfl

theorem exists_realFile (h : r.replaceRequest request issuer = .ok (some s)) :
    ∃ real, r.realFile issuer = .ok real := by
  cases hf : r.realFile issuer with
  | ok real => exact ⟨real, rfl⟩
  | error e =>
    rw [replaceRequest, resolve_of_realFile_error hf] at h
    split_ifs at h <;> cases h

/-- Requests are replaced only where they are alias requests or, beginning with the alias token of
the settings, relative or named after a package. If the token stands apart, the latter does not
occur: what is replaced is an alias request, and specifiers of all other kinds are left as they
are. -/
theorem replaces_alias_requests (r : Resolver) :
    (∀ request issuer s, r.replaceRequest request issuer = .ok (some s) → s ≠ request →
      ∃ real, r.realFile issuer = .ok real ∧ (r.IsAliasRequest request real ∨
        (r.settings.aliasToken.toList <+: request.toList ∧ r.IsRelativeOrNamed request))) ∧
    (r.TokenStandsApart → ∀ request issuer real, r.realFile issuer = .ok real →
      (∀ s, r.replaceRequest request issuer = .ok (some s) → s ≠ request →
        r.IsAliasRequest request real) ∧
      ((∀ p rest, r.specifierAt request real ≠ .aliased p rest) →
        r.replaceRequest request issuer = .ok none ∨
          r.replaceRequest request issuer = .ok (some request))) := by
  constructor
  · intro request issuer s h hne
    obtain ⟨real, hf⟩ := exists_realFile h
    refine ⟨real, hf, ?_⟩
    by_cases hn : r.settings.aliasToken.toList <+: request.toList ∧ r.IsRelativeOrNamed request
    · exact Or.inr hn
    · exact Or.inl (isAliasRequest_of_replaced hf (not_and.mp hn) h hne)
  · intro happart request issuer real hf
    have hn := (tokenStandsApart_iff happart.nonempty).mp happart request
    exact ⟨fun s h hne => isAliasRequest_of_replaced hf hn h hne,
      fun ha => replaceRequest_of_not_aliased hf hn ha⟩

def twoScopes (token : String) : Resolver where
  settings := { aliasToken := token, resolveLinks := false }
  packages := [⟨some "a", .ofString "/r/a", "src", none, "src", token⟩,
    ⟨some "@org/b", .ofString "/r/b", "src", none, "src", token⟩]
  probe := ⟨fun _ => .ok none, fun _ => .ok false⟩

theorem replaces_alias_requests_twoScopes :
    (twoScopes "~").TokenStandsApart ∧
    (twoScopes "~").replaceRequest "~/x" (.ofString "/r/a/f.js") = .ok (some "/r/a/src/x") ∧
    (twoScopes "~").IsAliasRequest "~/x" (.ofString "/r/a/f.js") ∧
    (twoScopes "~").specifierAt "~x" (.ofString "/r/a/f.js") = .module ∧
    ((twoScopes "~").replaceRequest "~x" (.ofString "/r/a/f.js") = .ok none ∨
      (twoScopes "~").replaceRequest "~x" (.ofString "/r/a/f.js") = .ok (some "~x")) := by
  have happart : (twoScopes "~").TokenStandsApart := by
    refine ⟨by decide, ?_, ?_⟩ <;> (unfold StandsApart; decide)
  have hfile : (twoScopes "~").realFile (.ofString "/r/a/f.js") = .ok (.ofString "/r/a/f.js") :=
    rfl
  have hreplaced : (twoScopes "~").replaceRequest "~/x" (.ofString "/r/a/f.js") =
      .ok (some "/r/a/src/x") := rfl
  have hmodule : (twoScopes "~").specifierAt "~x" (.ofString "/r/a/f.js") = .module := rfl
  have hall := (replaces_alias_requests (twoScopes "~")).2 happart
  refine ⟨happart, hreplaced, (hall _ _ _ hfile).1 _ hreplaced (by decide), hmodule,
    (hall _ _ _ hfile).2 fun p rest => ?_⟩
  rw [hmodule]
  exact Specifier.noConfusion

/-- A name that begins with the alias token is not left to the bundler. -/
theorem scoped_name_replaced :
    (twoScopes "@").replaceRequest "@org/b/lib" (.ofString "/r/a/f.js") =
      .ok (some "/r/b/src/lib") ∧
    (twoScopes "@").realFile (.ofString "/r/a/f.js") = .ok (.ofString "/r/a/f.js") ∧
    (twoScopes "@").specifierAt "@org/b/lib" (.ofString "/r/a/f.js") = .module ∧
    ¬ (twoScopes "@").IsAliasRequest "@org/b/lib" (.ofString "/r/a/f.js") := by
  refine ⟨rfl, rfl, rfl, ?_⟩
  rintro ⟨p, n, hp, -, h⟩
  have hpackage : (twoScopes "@").packageOf? (.ofString "/r/a/f.js") =
      some (⟨some "a", .ofString "/r/a", "src", none, "src", "@"⟩, 0) := rfl
  rw [hpackage] at hp
  cases hp
  -- behind the token there is a letter
  obtain h | ⟨rest, h⟩ := h
  all_goals
    have hsecond := congrArg (fun s => s.toList[1]?) h
    simp at hsecond

end Resolver
end Monorepo
