import ScenarioLint.Proofs.Json.Decoding
import ScenarioLint.Record

/-!
Records on their way through JSON.  A batch that came out of a decoder is what the decoder makes of
the JSON that is written of it, as long as no body example holds a double.
-/

namespace ScenarioLint

open Json (Source Value)

namespace Json.Source

/-- Only what is written as null denotes null. -/
theorem eq_null_of_value? {depth : Nat} {s : Source} (h : s.value? depth = some .null) :
    s = .null := by
  cases s with
  | null => rfl
  | number n =>
    obtain ⟨_, _, hnull⟩ := Option.map_eq_some_iff.mp h
    cases hnull
  | array items closed | object members closed =>
    rw [value?] at h
    split at h
    · obtain ⟨_, _, hnull⟩ := Option.map_eq_some_iff.mp h
      cases hnull
    · cases h
  | _ => cases h

/-- Null is no body example, and every other value keeps to the limits. -/
theorem fits_of_optional? {depth : Nat} {body : Option Source} {v : Value}
    (h : optional? (value? depth) body = some (some v)) : v.Fits depth ∧ v ≠ .null := by
  cases body with
  | none => cases h
  | some s =>
    by_cases hnull : s = .null
    · rw [hnull] at h
      cases h
    · rw [optional?_of_ne_null _ hnull, Option.map_eq_some_iff] at h
      obtain ⟨w, hw, heq⟩ := h
      cases heq
      exact ⟨Source.fits_of_value? s hw, fun hv => hnull (eq_null_of_value? (hv ▸ hw))⟩

end Json.Source

namespace Endpoint

/-- What the decoder makes of an endpoint that lies within `depth` arrays and objects: its body
    example keeps to the limits and is not null. -/
def Decoded (depth : Nat) (e : Endpoint) : Prop :=
  ∀ v ∈ e.bodyExample, v.Fits (depthLimit - depth) ∧ v ≠ .null

/-- If there is a body example, it holds no double. -/
def IsExact (e : Endpoint) : Prop :=
  ∀ v ∈ e.bodyExample, v.isExact = true

theorem decoded_of_ofSource? {depth : Nat} {source : Source} {e : Endpoint}
    (h : ofSource? depth source = some e) : e.Decoded depth := by
  rw [ofSource?, Option.bind_eq_bind, Option.bind_eq_some_iff] at h
  obtain ⟨fields, _, h⟩ := h
  split at h
  · simp only [bind, Option.bind_eq_some_iff] at h
    obtain ⟨_, _, _, _, _, _, body, hbody, he⟩ := h
    cases he
    rintro v rfl
    exact Source.fits_of_optional? hbody
  · cases h

theorem ofSource?_value {e : Endpoint} {depth : Nat} (h : e.Decoded depth) (hexact : e.IsExact) :
    ofSource? depth e.value.source = some e := by
  obtain ⟨path, method, host, body⟩ := e
  have hbody : Source.optional? (Source.value? (depthLimit - depth)) (body.map Value.source) =
      some body := by
    have hmap := Source.optional?_map (fun v hv => (h v hv).2)
      fun v hv => (h v hv).1.value?_source (hexact v hv)
    rwa [Option.map_id'] at hmap
  have hhost : Source.optional? Source.text? (host.map Source.string) = some host := by
    cases host <;> rfl
  have hfields : (value ⟨path, method, host, body⟩).source.fields?
      [["path".toList], ["method".toList], ["host".toList],
        ["request_body_example".toList, "request_example".toList]] =
        some [some (.string path), some (.string method), host.map .string,
          body.map Value.source] := by
    cases host <;> cases body <;> rfl
  rw [ofSource?, hfields]
  simp only [bind, Option.bind_some, Source.text?, hhost, hbody]

end Endpoint

namespace Record

/-- What the decoder makes of a record of a batch. -/
def Decoded (r : Record) : Prop :=
  r.endpoint.Decoded 3

theorem ofSource?_value {r : Record} (h : r.Decoded) (hexact : r.endpoint.IsExact) :
    ofSource? 2 r.value.source = some r := by
  obtain ⟨endpoint, kind, rawText, canonicalText⟩ := r
  have hkind : ScenarioKind.ofSource? (.string kind.name) = some kind := by
    cases kind <;> rfl
  have hcanonical : Source.optional? Source.text? (canonicalText.map Source.string) =
      some canonicalText := by
    cases canonicalText <;> rfl
  have hfields : (value ⟨endpoint, kind, rawText, canonicalText⟩).source.fields?
      [["endpoint".toList], ["kind".toList], ["raw_text".toList], ["canonical_text".toList]] =
        some [some endpoint.value.source, some (.string kind.name), some (.string rawText),
          canonicalText.map .string] := by
    cases canonicalText <;> rfl
  rw [ofSource?, hfields]
  simp only [bind, Option.bind_some, Source.text?, hkind, hcanonical,
    Endpoint.ofSource?_value h hexact]

theorem decoded_of_ofSource? {source : Source} {r : Record} (h : ofSource? 2 source = some r) :
    r.Decoded := by
  rw [ofSource?, Option.bind_eq_bind, Option.bind_eq_some_iff] at h
  obtain ⟨fields, _, h⟩ := h
  split at h
  · simp only [bind, Option.bind_eq_some_iff] at h
    obtain ⟨e, ⟨s, _, he⟩, h⟩ := h
    have hendpoint : r.endpoint = e := by
      split at h
      all_goals
        simp only [Option.bind_eq_some_iff] at h
        obtain ⟨_, _, _, _, _, _, hr⟩ := h
        cases hr
        rfl
    rw [Decoded, hendpoint]
    exact Endpoint.decoded_of_ofSource? he
  · cases h

theorem isExact_value {r : Record} (h : r.endpoint.IsExact) : r.value.isExact = true := by
  have hendpoint : r.endpoint.value.isExact = true := by
    refine Value.isExact_present ?_
    simpa [Endpoint.IsExact, Value.isExact] using h
  refine Value.isExact_present ?_
  simp [hendpoint, Value.isExact]

/-- The decoder finds the batch in its JSON. -/
theorem ofText?_pretty {records : List Record} (h : ∀ r ∈ records, r.Decoded)
    (hexact : ∀ r ∈ records, r.endpoint.IsExact) :
    ofText? (listValue records).pretty = some records := by
  have hlist : (listValue records).isExact = true :=
    Value.isExact_array fun r hr => isExact_value (hexact r hr)
  rw [ofText?, Json.Document.whole?_read_pretty hlist]
  exact Source.list?_array fun r hr => ofSource?_value (h r hr) (hexact r hr)

theorem forall_decoded_of_mapM {sources : List Source} {records : List Record}
    (h : sources.mapM (ofSource? 2) = some records) : ∀ r ∈ records, r.Decoded := by
  induction sources generalizing records with
  | nil =>
    cases h
    exact nofun
  | cons source rest ih =>
    simp only [List.mapM_cons, bind, Option.bind_eq_some_iff] at h
    obtain ⟨r, hr, more, hmore, hrecords⟩ := h
    cases hrecords
    exact List.forall_mem_cons.mpr ⟨decoded_of_ofSource? hr, ih hmore⟩

theorem forall_decoded_of_ofText? {t : Text} {records : List Record}
    (h : ofText? t = some records) : ∀ r ∈ records, r.Decoded := by
  rw [ofText?, Option.bind_eq_bind, Option.bind_eq_some_iff] at h
  obtain ⟨source, _, h⟩ := h
  unfold Source.list? at h
  split at h
  · exact forall_decoded_of_mapM h
  · cases h

end Record

end ScenarioLint
