import Stencil.Proofs.Lexeme.Cuts

/-!
# Tokens follow the modes

The scanner of a source in text mode is a machine with two states, and the tokens it has given tell
in which of them it is. In text mode it gives runs of text and opening brackets; from an opening
bracket on it is in code mode, where it gives anything but text, up to the next closing bracket.

* `splitText_eq_self_iff`: a run of text is one that holds no opening bracket.
* `FollowModes` are the runs of the machine. `Token.IsCut.fits` is one step of it, and
  `followModes_scan` the whole run.
* `KeepModes` is what this means for the tokens of a source alone, and `keepModes_tokens` says that
  it holds.
-/

namespace Stencil

/-! ## Opening brackets in a run of text -/

/-- A directive opens somewhere among the characters. -/
def HoldsOpening (chars : List Char) : Prop :=
  ['\x7b', '\x7b'] <:+: chars ∨ ['\x7b', '%'] <:+: chars

theorem startsDirective_iff {chars : List Char} :
    startsDirective chars = true ↔ ['\x7b', '\x7b'] <+: chars ∨ ['\x7b', '%'] <+: chars := by
  constructor
  · intro h
    unfold startsDirective at h
    split at h
    · exact .inl ⟨_, rfl⟩
    · exact .inr ⟨_, rfl⟩
    · cases h
  · rintro (⟨rest, rfl⟩ | ⟨rest, rfl⟩) <;> rfl

theorem holdsOpening_cons_iff {c : Char} {chars : List Char} :
    HoldsOpening (c :: chars) ↔ startsDirective (c :: chars) = true ∨ HoldsOpening chars := by
  simp only [HoldsOpening, startsDirective_iff, List.infix_cons_iff]
  exact or_or_or_comm

/-- All of the characters are one run of text exactly if no directive opens among them. -/
theorem splitText_eq_self_iff {chars : List Char} :
    Piece.splitText chars = (chars, []) ↔ ¬ HoldsOpening chars := by
  induction chars with
  | nil => simp [Piece.splitText, HoldsOpening]
  | cons c chars ih =>
    rw [splitText_eq_self_cons_iff, ih, holdsOpening_cons_iff, not_or, Bool.not_eq_true]

theorem Token.wellFormed_text_iff {content : String} :
    (Token.text content).WellFormed ↔ content ≠ "" ∧ ¬ HoldsOpening content.toList :=
  and_congr_right' splitText_eq_self_iff

/-! ## The machine -/

/-- Whether a token can be read in a mode. -/
def Token.fits : Mode → Token → Bool
  | .text, token => token.isText || token.opens
  | .code, token => !token.isText

/-- Each token can be read in the mode that those before it lead to, in a source in text mode. -/
def FollowModes : Mode → List Token → Prop
  | _, [] => True
  | current, token :: rest =>
    token.fits current = true ∧ FollowModes (current.after .text token) rest

/-- By every rule a token is cut off in a mode that it fits. -/
theorem Token.IsCut.fits {mode : Mode} {token : Token} {taken rest : List Char}
    (h : token.IsCut mode taken rest) : token.fits mode = true := by
  cases h with
  | openExpression mode => cases mode <;> rfl
  | openStatement mode => cases mode <;> rfl
  | word =>
    unfold Piece.word
    split <;> rfl
  | _ => rfl

theorem followModes_scan (current : Mode) (input : List Char) :
    FollowModes current (scan .text current input) := by
  refine scan_induction (P := fun current _ ts => FollowModes current ts) ?_ ?_ current input
  · exact fun _ _ _ => trivial
  · exact fun _ _ _ hpiece ih => ⟨(Piece.next?_eq_some_iff.1 hpiece).1.fits, ih⟩

section Runs

variable {current : Mode} {token : Token} {ts us : List Token}

theorem FollowModes.left_of_append (h : FollowModes current (ts ++ us)) :
    FollowModes current ts := by
  induction ts generalizing current with
  | nil => trivial
  | cons t ts ih => exact ⟨h.1, ih h.2⟩

theorem FollowModes.right_of_append (h : FollowModes current (ts ++ us)) :
    ∃ mode, FollowModes mode us := by
  induction ts generalizing current with
  | nil => exact ⟨current, h⟩
  | cons t ts ih => exact ih h.2

/-- Any stretch of a run is a run, from some mode on. -/
theorem FollowModes.stretch (h : FollowModes current ts) (hus : us <:+: ts) :
    ∃ mode, FollowModes mode us := by
  obtain ⟨before, after, rfl⟩ := hus
  exact h.left_of_append.right_of_append

/-- In code there is no text before the next closing bracket. -/
theorem FollowModes.isText_eq_false (h : FollowModes .code ts)
    (hopen : ∀ t ∈ ts, t.closes = false) (ht : token ∈ ts) : token.isText = false := by
  induction ts with
  | nil => cases ht
  | cons t ts ih =>
    obtain ⟨hcloses, hts⟩ := List.forall_mem_cons.1 hopen
    have hafter : Mode.after .code .text t = .code := by simp [Mode.after, hcloses]
    obtain ⟨hfits, hrest⟩ := h
    rw [hafter] at hrest
    rcases List.mem_cons.1 ht with rfl | ht
    · simpa [Token.fits] using hfits
    · exact ih hrest hts ht

theorem FollowModes.inside {opening : Token} (h : FollowModes current ts)
    (hstretch : opening :: us <:+: ts) (hopens : opening.opens = true)
    (hus : ∀ t ∈ us, t.closes = false) (ht : token ∈ us) : token.isText = false := by
  obtain ⟨mode, -, hrun⟩ := h.stretch hstretch
  have hafter : mode.after .text opening = .code := by simp [Mode.after, hopens]
  rw [hafter] at hrun
  exact hrun.isText_eq_false hus ht

theorem FollowModes.outside {closing next : Token} (h : FollowModes current ts)
    (hpair : [closing, next] <:+: ts) (hcloses : closing.closes = true) :
    next.isText = true ∨ next.opens = true := by
  obtain ⟨mode, -, hfits, -⟩ := h.stretch hpair
  have hafter : mode.after .text closing = .text := by
    cases closing <;> simp_all [Mode.after, Token.opens, Token.closes]
  rw [hafter] at hfits
  simpa [Token.fits] using hfits

end Runs

/-! ## Neighbours -/

section Neighbours

variable {initial current : Mode} {input : List Char} {t u : Token} {content : String}

theorem mayPrecede_of_pair (h : [t, u] <:+: scan initial current input) : t.MayPrecede u := by
  obtain ⟨before, after, hscan⟩ := h
  have hchain := isChain_scan initial current input
  rw [← hscan] at hchain
  exact List.isChain_pair.1 hchain.left_of_append.right_of_append

theorem not_isText_of_pair (h : [t, u] <:+: scan initial current input) :
    ¬ (t.isText = true ∧ u.isText = true) := by
  rintro ⟨ht, hu⟩
  cases t with
  | text content =>
    have hopens := (mayPrecede_of_pair h).1
    cases u <;> simp_all [Token.isText, Token.opens]
  | _ => cases ht

theorem eq_nil_of_brace {before after : List Token}
    (h : scan initial current input = before ++ .text content :: after)
    (hlast : content.toList.getLast? = some '\x7b') : after = [] := by
  cases after with
  | nil => rfl
  | cons next after =>
    have hpair : [.text content, next] <:+: scan initial current input :=
      ⟨before, after, by simp [h]⟩
    exact absurd hlast (mayPrecede_of_pair hpair).2

end Neighbours

/-! ## What the tokens show -/

/-- The tokens of a source in text mode, as its modes have them. -/
structure KeepModes (ts : List Token) : Prop where
  /-- A run of text is not empty, and no directive opens in it. -/
  text : ∀ content, .text content ∈ ts → content ≠ "" ∧ ¬ HoldsOpening content.toList
  /-- No run of text follows another one. -/
  apart : ∀ t u, [t, u] <:+: ts → ¬ (t.isText = true ∧ u.isText = true)
  /-- All that can follow a run of text is an opening bracket. -/
  followed : ∀ content next, [.text content, next] <:+: ts → next.opens = true
  /-- From an opening bracket on there is no text before the next closing bracket. -/
  inside : ∀ opening inner, opening :: inner <:+: ts → opening.opens = true →
    (∀ t ∈ inner, t.closes = false) → ∀ t ∈ inner, t.isText = false
  /-- A source begins with text or an opening bracket. -/
  start : ∀ t ∈ ts.head?, t.isText = true ∨ t.opens = true
  /-- Behind a closing bracket stands text or an opening bracket. -/
  outside : ∀ closing next, [closing, next] <:+: ts → closing.closes = true →
    next.isText = true ∨ next.opens = true
  /-- Text that ends in a brace is the last token. -/
  brace : ∀ before content after, ts = before ++ .text content :: after →
    content.toList.getLast? = some '\x7b' → after = []

/-- The tokens of a source in text mode keep its modes, and a source in code mode has no text. -/
theorem keepModes_tokens (source : String) :
    KeepModes (tokens .text source) ∧ ∀ t ∈ tokens .code source, t.isText = false := by
  have hmodes := followModes_scan .text source.toList
  refine ⟨?_, fun t ht => isText_eq_false_of_mem_scan ht⟩
  rw [tokens_eq_scan]
  exact
    { text := fun content hmem => Token.wellFormed_text_iff.1 (wellFormed_of_mem_scan hmem)
      apart := fun t u hpair => not_isText_of_pair hpair
      followed := fun content next hpair => (mayPrecede_of_pair hpair).1
      inside := fun opening inner hinner hopens hclosed t ht =>
        hmodes.inside hinner hopens hclosed ht
      start := by
        intro t ht
        obtain ⟨rest, hrest⟩ := List.head?_eq_some_iff.1 ht
        rw [hrest] at hmodes
        simpa [Token.fits] using hmodes.1
      outside := fun closing next hpair hcloses => hmodes.outside hpair hcloses
      brace := fun before content after hscan hlast => eq_nil_of_brace hscan hlast }

end Stencil
