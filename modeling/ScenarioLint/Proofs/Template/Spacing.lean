import ScenarioLint.Proofs.Template.Cleaning
import ScenarioLint.Proofs.Template.Meaning

/-!
The words of a line with single spaces between them.

They differ from the line in white space alone, so that what a line says with a dash between white
space or with its first word is said by its words as well.
-/

namespace ScenarioLint

namespace Text

/-- The only white space is single spaces. -/
structure IsEvenlySpaced (t : Text) : Prop where
  single : t.IsSingleSpaced
  spaces : ∀ c ∈ t, isSpace c = true → c = ' '

theorem IsEvenlySpaced.of_isInfix {t u : Text} (h : u.IsEvenlySpaced) (htu : t <:+: u) :
    t.IsEvenlySpaced :=
  ⟨h.single.of_isInfix htu, fun c hc => h.spaces c (htu.subset hc)⟩

theorem IsEvenlySpaced.eq_of_isBlank {ws : Text} (h : ws.IsEvenlySpaced)
    (hws : ws ≠ [] ∧ ws.isBlank = true) : ws = [' '] := by
  obtain ⟨hne, hblank⟩ := hws
  rw [isBlank_iff] at hblank
  match ws, hne with
  | [c], _ => rw [h.spaces c (by simp) (hblank c (by simp))]
  | c :: d :: ws, _ =>
    have hd := (List.isChain_cons.mp h.single).1 d rfl (hblank c (by simp))
    rw [hblank d (by simp)] at hd
    cases hd

theorem isEvenlySpaced_join {ts : List Text} (h : ∀ t ∈ ts, t ≠ [] ∧ ∀ c ∈ t, isSpace c = false) :
    IsEvenlySpaced (join [' '] ts) := by
  refine ⟨isSingleSpaced_join h, fun c hc hspace => ?_⟩
  obtain hmark | ⟨t, ht, hct⟩ := mem_join hc
  · exact List.mem_singleton.mp hmark
  · rw [(h t ht).2 c hct] at hspace
    cases hspace

end Text

namespace Template

section Relaxes

variable {t u : Text}

theorem Relaxes.refl (ht : t.IsSingleSpaced) : Relaxes t t := by
  induction t with
  | nil => exact .nil
  | cons c t ih =>
    obtain ⟨hhead, htail⟩ := List.isChain_cons.mp ht
    by_cases hc : isSpace c = true
    · rw [relaxes_cons_iff_of_space hc fun d hd => hhead d hd hc]
      exact ⟨[c], t, rfl, ⟨List.cons_ne_nil _ _, by simp [Text.isBlank, hc]⟩, ih htail⟩
    · exact .visible (Bool.not_eq_true _ ▸ hc) (ih htail)

theorem Relaxes.append_left {word : Text} (hword : ∀ c ∈ word, isSpace c = false)
    (h : Relaxes t u) : Relaxes (word ++ t) (word ++ u) := by
  induction word with
  | nil => exact h
  | cons c word ih =>
    obtain ⟨hc, hmore⟩ := List.forall_mem_cons.mp hword
    exact .visible hc (ih hmore)

theorem Relaxes.exists_append {word : Text} (hword : ∀ c ∈ word, isSpace c = false)
    (h : Relaxes (word ++ t) u) : ∃ v, u = word ++ v ∧ Relaxes t v := by
  induction word generalizing u with
  | nil => exact ⟨u, rfl, h⟩
  | cons c word ih =>
    obtain ⟨hc, hmore⟩ := List.forall_mem_cons.mp hword
    obtain ⟨v, rfl, hv⟩ := (relaxes_cons_iff_of_visible hc).mp h
    obtain ⟨w, rfl, hw⟩ := ih hmore hv
    exact ⟨w, rfl, hw⟩

/-- The words of a trimmed line, with one space between them, differ from the line in its white space
    alone. -/
theorem relaxes_join_words (ht : t.trim = t) : Relaxes (Text.join [' '] t.words) t := by
  induction hlength : t.length using Nat.strong_induction_on generalizing t with
  | _ n ih =>
    by_cases hne : t = []
    · subst hne
      exact .nil
    obtain ⟨word, hword, hvisible, rfl | ⟨c, gap, rest, rfl, hgap, hrest, hmore⟩⟩ :=
      Text.exists_word ht hne
    · rw [Text.words_of_visible hword hvisible, Text.join_singleton]
      exact .refl (Text.isSingleSpaced_of_visible hvisible)
    · have hwords : Text.words (word ++ c :: (gap ++ rest)) = word :: rest.words := by
        rw [Text.words_append_cons hword hvisible (Text.isBlank_iff.mp hgap c List.mem_cons_self),
          Text.words_append_of_isBlank (Bool.and_eq_true_iff.mp hgap).2]
      have hshort : rest.length < n := by
        rw [← hlength]
        simp only [List.length_append, List.length_cons]
        omega
      have hjoin := ih rest.length hshort hrest rfl
      have hne : rest.words ≠ [] := by
        intro hnil
        rw [hnil] at hjoin
        exact hmore (relaxes_nil_iff.mp hjoin)
      have hhead : ∀ d ∈ (Text.join [' '] rest.words).head?, isSpace d = false := fun d hd =>
        Text.isSpace_of_mem_head?_join (fun _ => Text.visible_of_mem_words) hd
      rw [hwords, Text.join_cons_of_ne_nil _ _ hne]
      exact .append_left hvisible
        (.gap ⟨List.cons_ne_nil _ _, rfl⟩ ⟨List.cons_ne_nil _ _, hgap⟩ hhead hjoin)

/-- Where the first line starts with white space, the second one does. -/
theorem Relaxes.exists_cons {c : Char} (hc : isSpace c = true) (h : Relaxes (c :: t) u) :
    ∃ d v, u = d :: v ∧ isSpace d = true := by
  generalize hs : c :: t = s at h
  cases h with
  | nil => cases hs
  | visible hvisible _ =>
    cases hs
    rw [hc] at hvisible
    cases hvisible
  | gap _ hvs _ _ =>
    obtain ⟨d, vs, rfl⟩ := List.exists_cons_of_ne_nil hvs.1
    exact ⟨d, _, rfl, Text.isBlank_iff.mp hvs.2 d List.mem_cons_self⟩

/-- Two lines whose white space is single spaces do not differ in it. -/
theorem Relaxes.eq (h : Relaxes t u) (ht : t.IsEvenlySpaced) (hu : u.IsEvenlySpaced) : t = u := by
  induction h with
  | nil => rfl
  | @visible c t u _ _ ih =>
    rw [ih (ht.of_isInfix (List.suffix_cons c t).isInfix)
      (hu.of_isInfix (List.suffix_cons c u).isInfix)]
  | @gap ws vs t u hws hvs _ _ ih =>
    rw [(ht.of_isInfix (List.prefix_append ws t).isInfix).eq_of_isBlank hws,
      (hu.of_isInfix (List.prefix_append vs u).isInfix).eq_of_isBlank hvs,
      ih (ht.of_isInfix (List.suffix_append ws t).isInfix)
        (hu.of_isInfix (List.suffix_append vs u).isInfix)]

end Relaxes

section Carried

variable {t u : Text}

/-- A word that ends in the first line ends in the second one. -/
theorem Relaxes.startsMisspelled (h : Relaxes t u) (ht : StartsMisspelled t) :
    StartsMisspelled u := by
  obtain ⟨rest, rfl, hend⟩ := ht
  obtain ⟨v, rfl, hv⟩ := h.exists_append (by decide)
  refine ⟨v, rfl, fun c hc => ?_⟩
  cases hv with
  | nil => cases hc
  | visible hd _ => exact hend c hc
  | gap _ hvs _ _ =>
    obtain ⟨d, vs, rfl⟩ := List.exists_cons_of_ne_nil hvs.1
    obtain rfl := Option.some.inj hc
    exact isWord_of_isSpace (Text.isBlank_iff.mp hvs.2 d List.mem_cons_self)

/-- A dash between white space lies behind white space, or it is the first thing behind it. -/
private theorem hasCommentary_append_of_isBlank {ws : Text} (hws : ws.isBlank = true)
    (h : HasCommentary (ws ++ t)) :
    (∃ d rest, t = '-' :: d :: rest ∧ isSpace d = true) ∨ HasCommentary t := by
  induction ws with
  | nil => exact .inr h
  | cons c ws ih =>
    obtain ⟨_, hmore⟩ := Bool.and_eq_true_iff.mp hws
    rw [List.cons_append, hasCommentary_cons_iff, startsCommentary_iff] at h
    obtain ⟨_, d, rest, heq, _, hd⟩ | hinside := h
    · obtain ⟨_, hdash⟩ := List.cons.inj heq
      cases ws with
      | nil => exact .inl ⟨d, rest, hdash, hd⟩
      | cons e ws =>
        obtain ⟨rfl, _⟩ := List.cons.inj hdash
        exact absurd (Text.isBlank_iff.mp hmore '-' List.mem_cons_self) (by decide)
    · exact ih hmore hinside

private theorem hasCommentary_of_dash {ws : Text} (hne : ws ≠ []) (hws : ws.isBlank = true) {d : Char}
    (hd : isSpace d = true) (rest : Text) : HasCommentary (ws ++ '-' :: d :: rest) := by
  obtain ⟨front, c, rfl⟩ := (List.eq_nil_or_concat' ws).resolve_left hne
  exact ⟨c, d, Text.isBlank_iff.mp hws c (by simp), hd, front, rest, by simp⟩

/-- A dash between white space in the first line stands between white space in the second one. -/
theorem Relaxes.hasCommentary (h : Relaxes t u) (ht : HasCommentary t) : HasCommentary u := by
  induction h with
  | nil => exact ht
  | visible hc _ ih =>
    rw [hasCommentary_cons_iff, startsCommentary_of_visible hc] at ht
    exact hasCommentary_cons_iff.mpr (.inr (ih (ht.resolve_left Bool.false_ne_true)))
  | @gap ws vs t u hws hvs _ h ih =>
    obtain ⟨d, rest, rfl, hd⟩ | hinside := hasCommentary_append_of_isBlank hws.2 ht
    · obtain ⟨v, rfl, hv⟩ := (relaxes_cons_iff_of_visible (by decide)).mp h
      obtain ⟨e, more, rfl, he⟩ := hv.exists_cons hd
      exact hasCommentary_of_dash hvs.1 hvs.2 he more
    · exact (ih hinside).of_isInfix (List.suffix_append vs u).isInfix

end Carried

end Template

end ScenarioLint
