import IdentityTokens.Proofs.Call.Deeds
import IdentityTokens.Proofs.Net.Addresses
import IdentityTokens.Users.Lookup

/-! # Where lookups go

The users of a project and those of its tenants are looked up at addresses of their own, as long as
the ID of a tenant is one segment of a path that is no dots. It is written into the address as it
is: with dots, slashes or a `#` in it, the address is read as that of somebody else. -/
namespace IdentityTokens.UserLookup

open Url

variable {l : UserLookup} {bearer : Bearer} {host project id id' t : String}

/-- Where the requests of a lookup go, if they can be sent. -/
def target? (l : UserLookup) : Option String := (Url.parse l.endpoint).toOption.map Url.target

/-- Whatever is sent goes where the lookup's requests go. -/
def Sends (l : UserLookup) (d : Deed) : Prop :=
  ∀ r, d = .ask (.exchange r) → l.target? = some r.url.target

theorem state_sends (l : UserLookup) (uid : String) : (l.state uid).Only l.Sends := by
  refine (Call.only_post nofun nofun fun token r hr => ?_).bind fun _ => Call.only_done _
  rintro _ ⟨⟩
  rw [target?, Request.parse_of_build hr]
  rfl

/-! ## What is written behind the project -/

def lookupName : List Char := "accounts:lookup".toList

theorem endpoint_of_project (h : l.tenant = none) :
    l.endpoint = l.projectUrl ++ String.ofList (joined ([] ++ [lookupName])) := by
  rw [endpoint, h]
  rfl

theorem endpoint_forTenant (l : UserLookup) (id : String) :
    (l.forTenant id).endpoint =
      l.projectUrl ++ String.ofList (joined (["tenants".toList, id.toList] ++ [lookupName])) := by
  have hnames : String.ofList (joined (["tenants".toList, id.toList] ++ [lookupName])) =
      "/tenants/" ++ id ++ "/accounts:lookup" := by
    apply String.toList_injective
    rw [String.toList_ofList, String.toList_append, String.toList_append]
    rfl
  rw [hnames, ← String.append_assoc, ← String.append_assoc]
  rfl

theorem isName_lookupName : IsName lookupName :=
  isName_of_all (by decide +kernel) (by decide +kernel) (by decide +kernel)

theorem isName_tenants : IsName "tenants".toList :=
  isName_of_all (by decide +kernel) (by decide +kernel) (by decide +kernel)

theorem follows_lookupName {names : List (List Char)} (h : ∀ s ∈ names, IsName s) :
    Follows (names ++ [lookupName]) where
  ne_nil := List.append_ne_nil_of_right_ne_nil _ (List.cons_ne_nil _ _)
  names := List.forall_mem_append.mpr ⟨h, List.forall_mem_singleton.mpr isName_lookupName⟩
  ends := by
    have hlast : (joined [lookupName]).getLast? = some 'p' := by decide +kernel
    rw [joined_append, List.getLast?_append, hlast]
    rintro c ⟨⟩
    decide

/-- The path of a project is left as it is before what is written behind it. -/
theorem inPath_ofHost (bearer : Bearer) (hhost : Unmarked host.toList)
    (hproject : Unmarked project.toList) :
    InPath (ofHost bearer host project).projectUrl.toList := by
  obtain ⟨start, hstart, hurl⟩ : ∃ start, (∀ c ∈ start, c ∈ host.toList) ∧
      (ofHost bearer host project).projectUrl.toList =
        start ++ '/' :: ("v1/projects/".toList ++ project.toList) := by
    refine ⟨(host.toList.reverse.dropWhile (· = '/')).reverse, fun c hc => ?_, ?_⟩
    · have hback := (List.dropWhile_suffix _).subset (List.mem_reverse.mp hc)
      exact List.mem_reverse.mp hback
    · simp [ofHost]
  rw [hurl]
  refine ⟨?_, fun scheme rest hscheme => ?_⟩
  · have hversion : Unmarked ("/v1/projects/".toList) := by decide +kernel
    exact unmarked_append.mpr ⟨hhost.of_subset hstart, unmarked_append.mpr ⟨hversion, hproject⟩⟩
  · rw [opening_append, scheme?_append] at hscheme
    obtain ⟨⟨scheme', rest'⟩, -, heq⟩ := Option.map_eq_some_iff.mp hscheme
    cases heq
    -- The host ended at the slash behind the version.
    have hversion : rest' ++ '/' :: ("v1/projects/".toList ++ project.toList).filter
        (fun c => !isBreak c) = (rest' ++ ['/']) ++ 'v' :: ('1' :: '/' :: ("projects/".toList ++
          project.toList).filter fun c => !isBreak c) := by
      simp [isBreak]
    refine ⟨'/', ?_, rfl⟩
    rw [hversion, dropWhile_append_of_head rfl]
    simp

/-! ## Where it goes -/

/-- Where a lookup goes that is written so behind its project: all or none of them go anywhere, and
they differ in nothing but what is written. -/
theorem target?_ofHost (bearer : Bearer) (hhost : Unmarked host.toList)
    (hproject : Unmarked project.toList) :
    (∀ names, (∀ s ∈ names, IsName s) → ∀ l : UserLookup,
      l.endpoint = (ofHost bearer host project).projectUrl ++
        String.ofList (joined (names ++ [lookupName])) → l.target? = none) ∨
    ∃ (u : Url) (written : List Char), u.query = none ∧
      ∀ names, (∀ s ∈ names, IsName s) → ∀ l : UserLookup,
        l.endpoint = (ofHost bearer host project).projectUrl ++
          String.ofList (joined (names ++ [lookupName])) →
        l.target? = some (u.withPath (stem written ++ (names ++ [lookupName]).map sent)).target := by
  rcases parse_append (inPath_ofHost bearer hhost hproject) with hnone | ⟨u, written, hquery, hu⟩
  · refine .inl fun names hnames l hl => ?_
    obtain ⟨f, hf⟩ := hnone _ (follows_lookupName hnames)
    rw [target?, hl, hf]
    rfl
  · refine .inr ⟨u, written, hquery, fun names hnames l hl => ?_⟩
    rw [target?, hl, hu _ (follows_lookupName hnames)]
    rfl

/-- What a lookup asks of one resource never comes to another one, of a tenant or of the project. -/
structure Apart (l : UserLookup) : Prop where
  sends : ∀ uid, (l.state uid).Only l.Sends ∧
    ∀ id, ((l.forTenant id).state uid).Only (l.forTenant id).Sends
  /-- Whether anything can be sent does not depend on the tenant. -/
  sendable : ∀ id, IsName id.toList → ((l.forTenant id).target? = none ↔ l.target? = none)
  /-- Two tenants share an address exactly if their IDs are sent alike. -/
  tenants : ∀ id id' t, IsName id.toList → IsName id'.toList → (l.forTenant id).target? = some t →
    ((l.forTenant id').target? = some t ↔ sent id'.toList = sent id.toList)
  /-- IDs that hold nothing encoded are not sent alike. -/
  apart : ∀ id id' t, IsName id.toList → IsName id'.toList → '%' ∉ id.toList → '%' ∉ id'.toList →
    id' ≠ id → (l.forTenant id).target? = some t → (l.forTenant id').target? ≠ some t
  project : ∀ id t, IsName id.toList → (l.forTenant id).target? = some t → l.target? ≠ some t

theorem tenantNames (h : IsName id.toList) : ∀ s ∈ ["tenants".toList, id.toList], IsName s :=
  List.forall_mem_cons.mpr ⟨isName_tenants, List.forall_mem_singleton.mpr h⟩

theorem joined_tenant_inj {names : List (List Char)} {s s' : List Char} :
    joined (names ++ (["tenants".toList, s] ++ [lookupName]).map sent) =
        joined (names ++ (["tenants".toList, s'] ++ [lookupName]).map sent) ↔ sent s = sent s' := by
  refine ⟨fun h => ?_, fun h => by simp [h]⟩
  simp only [joined_append, List.map_append, List.map_cons, List.map_nil, joined_cons] at h
  simpa using h

theorem joined_project_ne {names : List (List Char)} {s : List Char} :
    joined (names ++ ([] ++ [lookupName]).map sent) ≠
      joined (names ++ (["tenants".toList, s] ++ [lookupName]).map sent) := by
  intro h
  have hlength := congrArg List.length h
  simp only [joined_append, List.map_append, List.map_cons, List.map_nil, joined_cons,
    List.length_append, List.length_cons] at hlength
  omega

/-- **The users of a project and those of its tenants are looked up at addresses of their own**,
where IDs of tenants are names. -/
theorem lookups_apart (bearer : Bearer) (hhost : Unmarked host.toList)
    (hproject : Unmarked project.toList) :
    Apart (ofHost bearer host project) := by
  have hends := target?_ofHost bearer hhost hproject
  have hplain : (ofHost bearer host project).tenant = none := rfl
  generalize ofHost bearer host project = l at hends hplain ⊢
  have hsends (uid : String) := And.intro (state_sends l uid) fun id =>
    state_sends (l.forTenant id) uid
  rcases hends with hnone | ⟨u, written, hquery, hu⟩
  · have htenant (id : String) (h : IsName id.toList) : (l.forTenant id).target? = none :=
      hnone _ (tenantNames h) _ (endpoint_forTenant l id)
    have hproject' : l.target? = none := hnone [] nofun _ (endpoint_of_project hplain)
    refine ⟨hsends, fun id h => iff_of_true (htenant id h) hproject', ?_, ?_, ?_⟩
    · intro id id' t h h' ht
      cases (htenant id h).symm.trans ht
    · intro id id' t h h' _ _ _ ht
      cases (htenant id h).symm.trans ht
    · intro id t h ht
      cases (htenant id h).symm.trans ht
  · have htenant (id : String) (h : IsName id.toList) :=
      hu _ (tenantNames h) _ (endpoint_forTenant l id)
    have hproject' := hu [] nofun _ (endpoint_of_project hplain)
    have htenants (id id' t : String) (h : IsName id.toList) (h' : IsName id'.toList)
        (ht : (l.forTenant id).target? = some t) :
        (l.forTenant id').target? = some t ↔ sent id'.toList = sent id.toList := by
      rw [← ht, htenant id h, htenant id' h', Option.some_inj, target_withPath_inj hquery,
        joined_tenant_inj]
    refine ⟨hsends, fun id h => ?_, htenants, ?_, ?_⟩
    · rw [htenant id h, hproject']
      exact iff_of_false nofun nofun
    · intro id id' t h h' hp hp' hne ht ht'
      have hsent := (htenants id id' t h h' ht).mp ht'
      exact hne (String.toList_injective (Percent.encode_inj hp' hp hsent))
    · intro id t h ht ht'
      rw [← ht, htenant id h, hproject', Option.some_inj, target_withPath_inj hquery] at ht'
      exact joined_project_ne ht'

theorem lookups_apart_production :
    Unmarked "https://identitytoolkit.googleapis.com".toList ∧ Unmarked "p".toList ∧
      Apart (ofHost .custom "https://identitytoolkit.googleapis.com" "p") :=
  have hhost : Unmarked "https://identitytoolkit.googleapis.com".toList := by decide +kernel
  have hproject : Unmarked "p".toList := by decide +kernel
  ⟨hhost, hproject, lookups_apart .custom hhost hproject⟩

theorem state_congr {l l' : UserLookup} (hbearer : l.bearer = l'.bearer)
    (h : Url.parse l.endpoint = Url.parse l'.endpoint) (uid : String) : l.state uid = l'.state uid := by
  rw [state, state, Web.post, Web.post, hbearer]
  simp only [Request.build, h]

/-- Up from the tenants is the project itself, and nothing behind a `#` is ever sent. -/
theorem tenants_collide :
    (∀ uid, ((ofHost .custom "http://idtk.test" "p").forTenant "..").state uid =
      (ofHost .custom "http://idtk.test" "p").state uid) ∧
    (ofHost .custom "http://idtk.test" "p").target? =
      some "http://idtk.test/v1/projects/p/accounts:lookup" ∧
    "a#1" ≠ "a#2" ∧
    ((ofHost .custom "http://idtk.test" "p").forTenant "a#1").target? =
      some "http://idtk.test/v1/projects/p/tenants/a" ∧
    ((ofHost .custom "http://idtk.test" "p").forTenant "a#2").target? =
      some "http://idtk.test/v1/projects/p/tenants/a" := by
  refine ⟨state_congr rfl ?_, ?_, ?_, ?_, ?_⟩
  all_goals decide +kernel

end IdentityTokens.UserLookup
