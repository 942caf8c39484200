import ScenarioLint.Endpoint
import ScenarioLint.Proofs.Text.Search
import ScenarioLint.Proofs.Text.Space

/-!
Qualified URLs: what has a scheme keeps it, and qualifying a value once is enough.
-/

namespace ScenarioLint

/-- A URL with a scheme: it starts with characters of a scheme and `://` behind them. -/
def IsAbsolute (t : Text) : Prop :=
  ∃ scheme rest, t = scheme ++ "://".toList ++ rest ∧ scheme ≠ [] ∧
    ∀ c ∈ scheme, isSchemeChar c = true

theorem hasScheme_iff {t : Text} : hasScheme t = true ↔ IsAbsolute t := by
  rw [hasScheme]
  constructor
  · intro h
    cases hsplit : Text.splitOnce "://".toList t with
    | none =>
      rw [hsplit] at h
      cases h
    | some parts =>
      obtain ⟨scheme, rest⟩ := parts
      rw [hsplit] at h
      exact ⟨scheme, rest, Text.splitOnce_eq_append hsplit, by simpa using h⟩
  · rintro ⟨scheme, rest, rfl, hne, hscheme⟩
    have hcolon : ':' ∉ scheme := fun hmem => absurd (hscheme ':' hmem) (by decide)
    have hsplit : Text.splitOnce "://".toList (scheme ++ "://".toList ++ rest) =
        some (scheme, rest) := Text.splitOnce_append_cons hcolon "//".toList rest
    rw [hsplit]
    simpa [hne] using hscheme

theorem hasScheme_append {t : Text} (h : hasScheme t = true) (more : Text) :
    hasScheme (t ++ more) = true := by
  obtain ⟨scheme, rest, rfl, hscheme⟩ := hasScheme_iff.mp h
  exact hasScheme_iff.mpr ⟨scheme, rest ++ more, List.append_assoc _ _ _, hscheme⟩

/-- A text with a scheme starts with a character of the scheme. -/
theorem head?_of_hasScheme {t : Text} (h : hasScheme t = true) :
    ∃ c, t.head? = some c ∧ isSchemeChar c = true := by
  obtain ⟨scheme, rest, rfl, hne, hscheme⟩ := hasScheme_iff.mp h
  obtain ⟨c, more, rfl⟩ := List.exists_cons_of_ne_nil hne
  exact ⟨c, rfl, hscheme c List.mem_cons_self⟩

namespace Endpoint

variable {e : Endpoint}

theorem hostText_eq_some_iff {host : Text} : e.hostText = some host ↔
    ∃ raw, e.host = some raw ∧ raw.trim.rdropWhile (· == '/') = host :=
  Option.map_eq_some_iff

/-- The base URL is the host if that has a scheme, and the host behind a scheme otherwise. -/
theorem baseUrl_eq_some_iff {base : Text} : e.baseUrl = some base ↔
    ∃ host, e.hostText = some host ∧ host ≠ [] ∧
      base = if hasScheme host then host else "https://".toList ++ host := by
  rw [baseUrl]
  constructor
  · intro h
    split at h
    · cases h
    · cases h
    · next host hne hhost =>
      exact ⟨host, hhost, hne, (Option.some.inj h).symm⟩
  · rintro ⟨host, hhost, hne, rfl⟩
    rw [hhost]
    cases host with
    | nil => exact absurd rfl hne
    | cons c host => rfl

/-- There is no base URL if there is no host, or none but slashes. -/
theorem baseUrl_eq_none_iff : e.baseUrl = none ↔ ∀ host ∈ e.host, ∀ c ∈ host.trim, c = '/' := by
  have hslashes (raw : Text) : raw.trim.rdropWhile (· == '/') = [] ↔ ∀ c ∈ raw.trim, c = '/' := by
    simp [List.rdropWhile_eq_nil_iff]
  rw [Option.eq_none_iff_forall_ne_some]
  simp only [Option.mem_def, ne_eq, baseUrl_eq_some_iff, hostText_eq_some_iff, ← hslashes]
  constructor
  · intro h raw hraw
    by_contra hne
    exact h _ ⟨_, ⟨raw, hraw, rfl⟩, hne, rfl⟩
  · rintro h _ ⟨_, ⟨raw, hraw, rfl⟩, hne, _⟩
    exact hne (h raw hraw)

/-- A base URL has a scheme, whether the host was given with one or without. -/
theorem hasScheme_baseUrl {base : Text} (h : e.baseUrl = some base) : hasScheme base = true := by
  obtain ⟨host, _, _, rfl⟩ := baseUrl_eq_some_iff.mp h
  split
  · assumption
  · exact hasScheme_append (t := "https://".toList) rfl host

/-- The slashes at the end of a host are no part of the base URL, also where there is nothing but
    a scheme in front of them. -/
theorem getLast?_baseUrl {base : Text} (h : e.baseUrl = some base) : base.getLast? ≠ some '/' := by
  obtain ⟨host, hhost, hne, rfl⟩ := baseUrl_eq_some_iff.mp h
  obtain ⟨raw, _, rfl⟩ := hostText_eq_some_iff.mp hhost
  have hlast := List.rdropWhile_last_not (· == '/') raw.trim hne
  have hnot : (raw.trim.rdropWhile (· == '/')).getLast? ≠ some '/' := by
    rw [List.getLast?_eq_getLast_of_ne_nil hne]
    simpa using hlast
  split
  · exact hnot
  · rwa [List.getLast?_append_of_ne_nil _ hne]

/-- What neither the host nor the scheme holds is not in the base URL. -/
theorem not_mem_baseUrl {c : Char} {base : Text} (hc : c ∉ "https://".toList)
    (hhost : ∀ host ∈ e.host, c ∉ host) (h : e.baseUrl = some base) : c ∉ base := by
  obtain ⟨host, heq, _, rfl⟩ := baseUrl_eq_some_iff.mp h
  obtain ⟨raw, hraw, rfl⟩ := hostText_eq_some_iff.mp heq
  have hnot : c ∉ raw.trim.rdropWhile (· == '/') := fun hmem =>
    hhost raw hraw (Text.mem_of_mem_trim ((List.rdropWhile_prefix _ _).subset hmem))
  split
  · exact hnot
  · rw [List.mem_append, not_or]
    exact ⟨hc, hnot⟩

/-- A qualified value is the value itself, or the value behind the base URL. -/
theorem qualify_eq (e : Endpoint) (v : Text) :
    e.qualify v = v ∨ ∃ base slash, e.baseUrl = some base ∧ e.qualify v = base ++ slash ++ v ∧
      (slash = [] ∨ slash = ['/']) := by
  rw [qualify]
  split
  · exact .inl rfl
  · cases hbase : e.baseUrl with
    | none => exact .inl rfl
    | some base =>
      right
      dsimp only
      split
      · exact ⟨base, [], rfl, by simp, .inl rfl⟩
      · exact ⟨base, ['/'], rfl, by simp, .inr rfl⟩

theorem hasScheme_qualify {base : Text} (h : e.baseUrl = some base) (v : Text) :
    hasScheme (e.qualify v) = true := by
  have hscheme := hasScheme_baseUrl h
  rw [qualify, h]
  split
  · assumption
  · dsimp only
    split
    · exact hasScheme_append hscheme v
    · exact hasScheme_append hscheme ('/' :: v)

theorem qualify_of_hasScheme {v : Text} (h : hasScheme v = true) : e.qualify v = v := by
  rw [qualify, if_pos h]

/-- A qualified value needs no further qualification. -/
theorem qualify_qualify_eq (e : Endpoint) (v : Text) : e.qualify (e.qualify v) = e.qualify v := by
  cases hbase : e.baseUrl with
  | some base => exact qualify_of_hasScheme (hasScheme_qualify hbase v)
  | none =>
    have hsame : ∀ w, e.qualify w = w := fun w => by simp [qualify, hbase]
    rw [hsame, hsame]

theorem not_mem_qualify {c : Char} (hc : c ∉ "https://".toList) (hhost : ∀ host ∈ e.host, c ∉ host)
    {v : Text} (hv : c ∉ v) : c ∉ e.qualify v := by
  obtain h | ⟨base, slash, hbase, h, hslash⟩ := qualify_eq e v
  · rwa [h]
  · have hnot : c ∉ slash := by
      rcases hslash with rfl | rfl
      · simp
      · exact fun hmem => hc (List.mem_singleton.mp hmem ▸ by decide)
    simp [h, hv, hnot, not_mem_baseUrl hc hhost hbase]

theorem getLast?_qualify {v : Text} (hv : v ≠ []) : (e.qualify v).getLast? = v.getLast? := by
  obtain h | ⟨base, slash, _, h, _⟩ := qualify_eq e v
  · rw [h]
  · rw [h, List.getLast?_append_of_ne_nil _ hv]

/-- A value that changes when it is qualified starts with a scheme afterwards. -/
theorem head?_qualify_of_ne {v : Text} (h : e.qualify v ≠ v) :
    ∃ c, (e.qualify v).head? = some c ∧ isSchemeChar c = true := by
  obtain heq | ⟨base, _, hbase, _⟩ := qualify_eq e v
  · exact absurd heq h
  · exact head?_of_hasScheme (hasScheme_qualify hbase v)

/-- A value without a scheme stands behind the base URL and a slash. -/
theorem qualify_of_not_hasScheme {base v : Text} (hbase : e.baseUrl = some base)
    (hv : hasScheme v = false) : base ++ ['/'] <+: e.qualify v ∧ v <:+ e.qualify v := by
  rw [qualify, hv, hbase]
  change _ <+: (if v.head? = some '/' then _ else _) ∧ _ <:+ (if v.head? = some '/' then _ else _)
  split
  · next hslash =>
    obtain ⟨rest, rfl⟩ := List.head?_eq_some_iff.mp hslash
    exact ⟨⟨rest, by simp⟩, List.suffix_append _ _⟩
  · exact ⟨⟨v, by simp⟩, ⟨base ++ ['/'], by simp⟩⟩

/-- Qualifying a value: once is enough, and what has a scheme stays as it is.  If the host is known,
    the result has a scheme, and a value without one comes behind the base URL and a slash. -/
theorem qualify_spec (e : Endpoint) (v : Text) :
    e.qualify (e.qualify v) = e.qualify v ∧ (IsAbsolute v → e.qualify v = v) ∧
      match e.baseUrl with
      | none => (∀ host ∈ e.host, ∀ c ∈ host.trim, c = '/') ∧ e.qualify v = v
      | some base => IsAbsolute base ∧ base.getLast? ≠ some '/' ∧ IsAbsolute (e.qualify v) ∧
          (¬ IsAbsolute v → base ++ ['/'] <+: e.qualify v ∧ v <:+ e.qualify v) := by
  refine ⟨qualify_qualify_eq e v, fun hv => qualify_of_hasScheme (hasScheme_iff.mpr hv), ?_⟩
  cases hbase : e.baseUrl with
  | none => exact ⟨baseUrl_eq_none_iff.mp hbase, by simp [qualify, hbase]⟩
  | some base =>
    refine ⟨hasScheme_iff.mp (hasScheme_baseUrl hbase), getLast?_baseUrl hbase,
      hasScheme_iff.mp (hasScheme_qualify hbase v), fun hv => ?_⟩
    rw [← hasScheme_iff, Bool.not_eq_true] at hv
    exact qualify_of_not_hasScheme hbase hv

/-- A scheme with nothing behind it is taken for a host, a value with a scheme inside has none, and
    one with a scheme and nothing behind it stays. -/
theorem qualify_spec_bare_scheme :
    let e : Endpoint := ⟨[], [], some " https:/// ".toList, none⟩
    let v : Text := "p?u=http://x".toList
    e.baseUrl = some "https://https:".toList ∧
      ¬ IsAbsolute v ∧ "https://https:/".toList <+: e.qualify v ∧ v <:+ e.qualify v ∧
      IsAbsolute "ws://".toList ∧ e.qualify "ws://".toList = "ws://".toList := by
  intro e v
  have hbase : e.baseUrl = some "https://https:".toList := by decide
  have hv : ¬ IsAbsolute v := by
    rw [← hasScheme_iff]
    decide
  have hws : IsAbsolute "ws://".toList := hasScheme_iff.mp (by decide)
  have hspec := (qualify_spec e v).2.2
  rw [hbase] at hspec
  obtain ⟨_, _, _, hplace⟩ := hspec
  obtain ⟨hstarts, hends⟩ := hplace hv
  exact ⟨hbase, hv, hstarts, hends, hws, (qualify_spec e _).2.1 hws⟩

end Endpoint

end ScenarioLint
