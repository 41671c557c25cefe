import Monorepo.Proofs.Resolver.AliasRequest
import Monorepo.Proofs.Resolver.Spelling

/-! Requests with the alias of the issuer's own package. The resolver goes by the token of the
package, and requests are handed to it by the token of the settings, which packages have if they set
none. All alias requests of a package are replaced just if its token begins with that one. -/
namespace Monorepo

theorem IsInFront.isRelative {token target : String} (h : IsInFront token target)
    (ht : Specifier.isRelative token = true) : Specifier.isRelative target = true := by
  obtain ⟨-, rfl | ⟨rest, rfl⟩⟩ := h
  · exact ht
  · have hhead : (segments (Path.ofString (token ++ "/" ++ rest)).chars).head? =
        (segments (Path.ofString token).chars).head? := by
      rw [Path.ofString_append, Path.ofString_append, List.append_assoc]
      exact head?_segments_append_slash _ _
    rwa [Specifier.isRelative_iff, hhead, ← Specifier.isRelative_iff]

namespace Resolver
variable {r : Resolver} {request : String} {issuer real : Path} {p : Package} {n : Nat}

theorem BeginsWithDefault.of_isInFront {token : String} (h : r.BeginsWithDefault token)
    (hfront : IsInFront token request) : r.BeginsWithDefault request :=
  ⟨h.1, h.2.trans hfront.isPrefix⟩

/-- An alias request leads into the sources of the package that the file belongs to. -/
theorem destination?_of_alias (haliases : r.settings.resolveAliases = true)
    (hp : r.packageOf? real = some (p, n)) (hfront : IsInFront p.aliasToken request)
    (hrel : Specifier.isRelative request = false) :
    ∃ rest, r.destination? request real = .ok (some (sourcesPath p rest)) := by
  obtain ⟨rest, hrest⟩ := Option.isSome_iff_exists.mp ((isInFront_iff _ _).mp hfront)
  have hs : r.specifierAt request real = .aliased p rest := by
    rw [specifierAt, hp, Option.map_some,
      Specifier.classify_of_alias r.settings p request rest hrel hrest, if_pos haliases]
  exact ⟨rest, by rw [destination?, hs]⟩

theorem resolve_alias (hr : ∀ p ∈ r.packages, p.root.isAbsolute = true)
    (haliases : r.settings.resolveAliases = true) (hf : r.realFile issuer = .ok real)
    (hp : r.packageOf? real = some (p, n)) (hfront : IsInFront p.aliasToken request)
    (hrel : Specifier.isRelative request = false) :
    ∃ path, r.resolve request issuer false = .ok path ∧
      (Path.ofString path).isAbsolute = true := by
  obtain ⟨rest, hd⟩ := destination?_of_alias haliases hp hfront hrel
  obtain ⟨hdots, -⟩ | ⟨-, q, hq, hnormal⟩ := r.destination?_eq_some request real _ hr hd
  · rw [hrel] at hdots
    cases hdots
  · have hsources : (sourcesPath p rest).isAbsolute = true := by
      rw [hnormal, Path.isAbsolute_normalize, hq]
    exact ⟨_, resolve_of_destination hf hd, isAbsolute_write request real _ hsources⟩

/-- Every alias request of a package stands for an absolute path, and is replaced by it just if it
begins with the alias token of the settings. For all requests of a package that is so just if the
token of the package begins with that of the settings, or reads as a relative specifier and so has
no requests. -/
theorem alias_requests_replaced_iff (r : Resolver)
    (hr : ∀ p ∈ r.packages, p.root.isAbsolute = true)
    (haliases : r.settings.resolveAliases = true) :
    (∀ issuer e request, r.realFile issuer = .error e →
      r.replaceRequest request issuer =
        if r.BeginsWithDefault request then .error e else .ok none) ∧
    ∀ issuer real p n, r.realFile issuer = .ok real → r.packageOf? real = some (p, n) →
      p.aliasToken ≠ "" →
      (∀ request, IsInFront p.aliasToken request → Specifier.isRelative request = false →
        ∃ path, r.resolve request issuer false = .ok path ∧
          (Path.ofString path).isAbsolute = true ∧
          r.replaceRequest request issuer =
            if r.BeginsWithDefault request then .ok (some path) else .ok none) ∧
      ((∀ request, IsInFront p.aliasToken request → Specifier.isRelative request = false →
          r.replaceRequest request issuer = (r.resolve request issuer false).map some) ↔
        r.BeginsWithDefault p.aliasToken ∨ Specifier.isRelative p.aliasToken = true) := by
  constructor
  · intro issuer e request hf
    rw [replaceRequest_eq, resolve_of_realFile_error hf]
    rfl
  · intro issuer real p n hf hp hne
    have hpath (request : String) (hfront : IsInFront p.aliasToken request)
        (hrel : Specifier.isRelative request = false) :=
      resolve_alias hr haliases hf hp hfront hrel
    refine ⟨fun request hfront hrel => ?_, ⟨fun hall => ?_, ?_⟩⟩
    · obtain ⟨path, hresolve, habs⟩ := hpath request hfront hrel
      exact ⟨path, hresolve, habs, by rw [replaceRequest_eq, hresolve]; rfl⟩
    · -- the bare token is a request of its own
      by_contra hc
      obtain ⟨hbegins, hrel⟩ := not_or.mp hc
      have hself : IsInFront p.aliasToken p.aliasToken := ⟨hne, Or.inl rfl⟩
      have hbare := hall p.aliasToken hself (by simpa using hrel)
      obtain ⟨path, hresolve, -⟩ := hpath p.aliasToken hself (by simpa using hrel)
      rw [replaceRequest_eq, if_neg hbegins, hresolve] at hbare
      cases hbare
    · rintro (hbegins | hdots) request hfront hrel
      · rw [replaceRequest_eq, if_pos (hbegins.of_isInFront hfront)]
      · rw [hfront.isRelative hdots] at hrel
        cases hrel

def ownTokens : Resolver where
  settings := { resolveLinks := false }
  packages := [⟨some "a", .ofString "/r/a", "src", none, "src", "~"⟩,
    ⟨some "b", .ofString "/r/b", "src", none, "src", "#"⟩,
    ⟨some "c", .ofString "/r/c", "src", none, "src", "~c"⟩]
  probe := ⟨fun _ => .ok none, fun _ => .ok false⟩

theorem alias_requests_replaced_iff_ownTokens :
    (∀ p ∈ ownTokens.packages, p.root.isAbsolute = true) ∧
    ownTokens.settings.resolveAliases = true ∧
    ownTokens.realFile (.ofString "/r/c/f.js") = .ok (.ofString "/r/c/f.js") ∧
    ownTokens.packageOf? (.ofString "/r/c/f.js") =
      some (⟨some "c", .ofString "/r/c", "src", none, "src", "~c"⟩, 2) ∧
    IsInFront "~c" "~c/x/" ∧ Specifier.isRelative "~c/x/" = false ∧
    ∃ path, ownTokens.resolve "~c/x/" (.ofString "/r/c/f.js") false = .ok path ∧
      (Path.ofString path).isAbsolute = true ∧
      ownTokens.replaceRequest "~c/x/" (.ofString "/r/c/f.js") = .ok (some path) := by
  have hr : ∀ p ∈ ownTokens.packages, p.root.isAbsolute = true := by decide
  have hf : ownTokens.realFile (.ofString "/r/c/f.js") = .ok (.ofString "/r/c/f.js") := rfl
  have hp : ownTokens.packageOf? (.ofString "/r/c/f.js") =
      some (⟨some "c", .ofString "/r/c", "src", none, "src", "~c"⟩, 2) := by decide
  have hfront : IsInFront "~c" "~c/x/" := by decide
  have hrel : Specifier.isRelative "~c/x/" = false := by decide
  have hall := (alias_requests_replaced_iff ownTokens hr rfl).2 _ _ _ _ hf hp (by decide)
  obtain ⟨path, hresolve, habs, hreplaced⟩ := hall.1 "~c/x/" hfront hrel
  rw [if_pos (by decide)] at hreplaced
  exact ⟨hr, rfl, hf, hp, hfront, hrel, path, hresolve, habs, hreplaced⟩

/-- The alias of a package that has a token of its own is not replaced, although the resolver knows
it. -/
theorem own_alias_not_replaced :
    ownTokens.realFile (.ofString "/r/b/f.js") = .ok (.ofString "/r/b/f.js") ∧
    ownTokens.packageOf? (.ofString "/r/b/f.js") =
      some (⟨some "b", .ofString "/r/b", "src", none, "src", "#"⟩, 1) ∧
    IsInFront "#" "#/x" ∧ Specifier.isRelative "#/x" = false ∧
    ownTokens.resolve "#/x" (.ofString "/r/b/f.js") false = .ok "/r/b/src/x" ∧
    ownTokens.replaceRequest "#/x" (.ofString "/r/b/f.js") = .ok none := by
  decide

end Resolver
end Monorepo
