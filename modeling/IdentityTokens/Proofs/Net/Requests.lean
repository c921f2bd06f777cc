import IdentityTokens.Net.Exchange

/-! # What requests are built from

A request that could be built goes to the address it was built for, once that is read, and holds
what was given for it: a method, the headers in lower case behind those of a login, and a body. -/
namespace IdentityTokens.Request

variable {method : Method} {url body : String} {headers : List (String × String)} {r : Request}

theorem eq_of_build (h : build method url headers body = .ok r) : ∃ u, Url.parse url = .ok u ∧
    r = ⟨method, u, loginHeaders u ++ headers.map fun h => (h.1.toLower, h.2), body⟩ := by
  rw [build] at h
  split at h
  · cases h
  · cases h
  · rename_i u hu
    split at h
    · cases h
      exact ⟨u, hu, rfl⟩
    · cases h

theorem method_of_build (h : build method url headers body = .ok r) : r.method = method := by
  obtain ⟨u, -, rfl⟩ := eq_of_build h
  rfl

theorem body_of_build (h : build method url headers body = .ok r) : r.body = body := by
  obtain ⟨u, -, rfl⟩ := eq_of_build h
  rfl

theorem parse_of_build (h : build method url headers body = .ok r) :
    Url.parse url = .ok r.url := by
  obtain ⟨u, hu, rfl⟩ := eq_of_build h
  exact hu

end IdentityTokens.Request
