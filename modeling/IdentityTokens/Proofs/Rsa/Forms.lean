import IdentityTokens.Proofs.Call.Runs
import IdentityTokens.Rsa.PrivateKey

/-! # Two forms of one key

A document holds a key bare, under one label, or wrapped with the name of its algorithm, under
another. The parts of the key are read in the same way from both, so which form it is in makes no
difference to what is loaded. -/
namespace IdentityTokens.Rsa.PrivateKey

open Asn1

variable {b : Bytes} {c : Components} {key : PrivateKey}

/-- A document whose content is the parts of a key. -/
def IsBare (b : Bytes) (c : Components) : Prop :=
  ∃ content, sequenceDocument b = .ok ⟨"RSA PRIVATE KEY", content⟩ ∧
    Asn1.document Components.read content = .ok c

/-- A document whose content names the algorithm and has the parts of a key inside. -/
def IsWrapped (b : Bytes) (c : Components) : Prop :=
  ∃ content parts, sequenceDocument b = .ok ⟨"PRIVATE KEY", content⟩ ∧
    Asn1.document wrapped content = .ok (true, parts) ∧
    Asn1.document Components.read parts = .ok c

/-- A document that holds the parts of a key in either form. -/
def Holds (b : Bytes) (c : Components) : Prop := IsBare b c ∨ IsWrapped b c

/-! ## What is loaded from a form -/

theorem toOption_ofComponents (h : Asn1.document Components.read b = .ok c) :
    (ofComponents b).toOption = c.key? := by
  rw [ofComponents, h]
  cases hkey : c.key? <;> simp only [hkey, Except.toOption]

theorem expectLabel_self (label : String) (content : Bytes) :
    (⟨label, content⟩ : Pem.Document).expectLabel label = .ok content :=
  if_pos rfl

theorem toOption_ofPem_of_isBare (h : IsBare b c) : (ofPem b).toOption = c.key? := by
  obtain ⟨content, hdocument, hread⟩ := h
  have hother : ofWrapped? b = none := by
    rw [ofWrapped?, hdocument]
    rfl
  have hbare : ofBare b = ofComponents content := by
    rw [ofBare, hdocument]
    rfl
  rw [ofPem, hother, hbare]
  exact toOption_ofComponents hread

theorem toOption_ofPem_of_isWrapped (h : IsWrapped b c) : (ofPem b).toOption = c.key? := by
  obtain ⟨content, parts, hdocument, hwrapped, hread⟩ := h
  have hloaded : ofWrapped? b = c.key? := by
    rw [ofWrapped?, hdocument, ← toOption_ofComponents hread]
    simp only [Except.toOption, bind, Option.bind, expectLabel_self, hwrapped, if_true]
  have hother : (ofBare b).toOption = none := by
    rw [ofBare, hdocument]
    rfl
  rw [ofPem, hloaded]
  cases hkey : c.key? with
  | none => exact hother
  | some key => rfl

/-- **What is loaded from a document is decided by the parts of the key that it holds**, in
whichever form it holds them. -/
theorem toOption_ofPem (h : Holds b c) : (ofPem b).toOption = c.key? :=
  h.elim toOption_ofPem_of_isBare toOption_ofPem_of_isWrapped

/-! ## No other forms -/

theorem of_ofComponents (h : ofComponents b = .ok key) :
    ∃ c, Asn1.document Components.read b = .ok c ∧ c.key? = some key := by
  unfold ofComponents at h
  split at h
  · cases h
  · rename_i c hread
    split at h
    · rename_i hkey
      cases h
      exact ⟨c, hread, hkey⟩
    · cases h

theorem of_expectLabel {d : Pem.Document} {label : String} {content : Bytes}
    (h : d.expectLabel label = .ok content) : d = ⟨label, content⟩ := by
  obtain ⟨found, inside⟩ := d
  unfold Pem.Document.expectLabel at h
  split at h
  · rename_i hlabel
    cases hlabel
    cases h
    rfl
  · cases h

theorem isBare_of_ofBare (h : ofBare b = .ok key) : ∃ c, IsBare b c ∧ c.key? = some key := by
  obtain ⟨d, hdocument, h⟩ := ok_of_bind h
  obtain ⟨content, hlabel, h⟩ := ok_of_bind h
  obtain ⟨c, hread, hkey⟩ := of_ofComponents h
  rw [of_expectLabel (ok_of_mapError hlabel)] at hdocument
  exact ⟨c, ⟨content, hdocument, hread⟩, hkey⟩

theorem isWrapped_of_ofWrapped? (h : ofWrapped? b = some key) :
    ∃ c, IsWrapped b c ∧ c.key? = some key := by
  unfold ofWrapped? at h
  simp only [bind, Option.bind_eq_some_iff] at h
  obtain ⟨d, hdocument, content, hlabel, ⟨isRsa, parts⟩, hwrapped, h⟩ := h
  cases isRsa with
  | false => cases h
  | true =>
    rw [if_pos rfl] at h
    obtain ⟨c, hread, hkey⟩ := of_ofComponents (toOption_eq_some.mp h)
    rw [of_expectLabel (toOption_eq_some.mp hlabel)] at hdocument
    exact ⟨c, ⟨content, parts, toOption_eq_some.mp hdocument, toOption_eq_some.mp hwrapped, hread⟩,
      hkey⟩

/-- **A key is loaded from one of the two forms**, and from nothing else. -/
theorem exists_holds (h : ofPem b = .ok key) : ∃ c, Holds b c ∧ c.key? = some key := by
  unfold ofPem at h
  split at h
  · rename_i k hwrapped
    cases h
    obtain ⟨c, hc, hkey⟩ := isWrapped_of_ofWrapped? hwrapped
    exact ⟨c, .inr hc, hkey⟩
  · obtain ⟨c, hc, hkey⟩ := isBare_of_ofBare h
    exact ⟨c, .inl hc, hkey⟩

end IdentityTokens.Rsa.PrivateKey
