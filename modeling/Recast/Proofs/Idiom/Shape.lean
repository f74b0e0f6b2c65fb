import Recast.Idiom
import Recast.Proofs.Pattern.Reading
import Recast.Proofs.Text.Layout

/-!
# Shapes of idioms

What the text of an idiom looks like, piece by piece, and what its groups hold.
-/

namespace Recast

namespace Idiom

open Pattern

/-- A word after at least one blank. -/
structure NameAfter (b name : Text) : Prop where
  apart : b ≠ []
  blank : ∀ c ∈ b, isBlank c = true
  ne_nil : name ≠ []
  word : ∀ c ∈ name, isWord c = true

variable {before : Option Char} {u rest : Text} {gs : List (Option Text)}

theorem shape_assignment (h : assignmentPattern.Reads before u rest gs) :
    ∃ name b b' value : Text, u = name ++ (b ++ ("=" ++ (b' ++ value))) ∧
      (∀ c ∈ name, isWord c = true) ∧ (∀ c ∈ b, isBlank c = true) ∧
      (∀ c ∈ b', isBlank c = true) ∧ ∀ c ∈ value, isInline c = true := by
  simp only [assignmentPattern, word, blanks, reads_append_assoc,
    reads_anchor_append, reads_literal_append, reads_many_append,
    reads_group_append, reads_group_iff, reads_many1_iff] at h
  obtain ⟨-, name, _, _, _, rfl, -, ⟨-, hname, -⟩, b, _, rfl, hb, _, rfl, -, b',
    value, rfl, hb', _, -, -, hvalue, -⟩ := h
  exact ⟨name, b, b', value, rfl, hname, hb, hb', hvalue⟩

theorem reads_functionName_iff :
    functionNamePattern.Reads before u rest gs ↔
      ∃ b name : Text, u = "def" ++ (b ++ (name ++ "(")) ∧ gs = [some name] ∧
        NameAfter b name := by
  simp only [functionNamePattern, blanks1, word, reads_append_assoc,
    reads_literal_append, reads_many1_append, reads_group_append,
    reads_many1_iff, reads_literal_iff]
  constructor
  · rintro ⟨_, rfl, b, _, rfl, hb, hblank, name, _, _, _, rfl, rfl,
      ⟨hname, hword, rfl⟩, rfl, rfl⟩
    exact ⟨b, name, rfl, rfl, hb, hblank, hname, hword⟩
  · rintro ⟨b, name, rfl, rfl, hb, hblank, hname, hword⟩
    exact ⟨_, rfl, b, _, rfl, hb, hblank, name, _, _, _, rfl, rfl,
      ⟨hname, hword, rfl⟩, rfl, rfl⟩

/-- A nonempty run of word characters. -/
structure IsName (name : Text) : Prop where
  ne_nil : name ≠ []
  word : ∀ c ∈ name, isWord c = true

theorem IsName.not_mem {name : Text} (h : IsName name) {c : Char}
    (hc : isWord c = false) : c ∉ name :=
  Text.not_mem_of_forall h.word hc

theorem header_of_functionDef (h : functionDefPattern.Reads before u rest gs) :
    ∃ indent b name params : Text,
      u = indent ++ ("def" ++ (b ++ (name ++ ("(" ++ (params ++ "):"))))) ∧
      gs = [some indent, some name, some params] ∧ NameAfter b name ∧
      (∀ c ∈ indent, isIndent c = true) ∧
      ∀ c ∈ params, isInline c = true := by
  simp only [functionDefPattern, Pattern.indent, blanks1, word, stretch,
    reads_append_assoc, reads_anchor_append, reads_literal_append,
    reads_many1_append, reads_group_append, reads_many_iff, reads_many1_iff,
    reads_literal_iff] at h
  obtain ⟨-, indent, _, _, _, rfl, rfl, ⟨hindent, rfl⟩, _, rfl, b, _, rfl, hb,
    hblank, name, _, _, _, rfl, rfl, ⟨hname, hword, rfl⟩, _, rfl, params, _, _,
    _, rfl, rfl, ⟨hparams, rfl⟩, rfl, rfl⟩ := h
  exact ⟨indent, b, name, params, rfl, rfl, ⟨hb, hblank, hname, hword⟩,
    hindent, hparams⟩

theorem shape_functionDef (h : functionDefPattern.Reads before u rest gs) :
    ∃ indent b name params : Text,
      u = indent ++ ("def" ++ (b ++ (name ++ ("(" ++ (params ++ "):"))))) ∧
      gs = [some indent, some name, some params] ∧ NameAfter b name := by
  obtain ⟨indent, b, name, params, htext, hgroups, hafter, -, -⟩ :=
    header_of_functionDef h
  exact ⟨indent, b, name, params, htext, hgroups, hafter⟩

theorem shape_comment (h : commentPattern.Reads before u rest gs) :
    ∃ indent gap text : Text, u = indent ++ ("#" ++ (gap ++ text)) ∧
      gs = [some indent, some text] ∧ (∀ c ∈ indent, isIndent c = true) ∧
      (∀ c ∈ gap, isIndent c = true) ∧ ∀ c ∈ text, isInline c = true := by
  simp only [commentPattern, Pattern.indent, stretch, reads_append_assoc,
    reads_anchor_append, reads_literal_append, reads_group_append,
    reads_many_iff] at h
  obtain ⟨-, indent, _, _, _, rfl, rfl, ⟨hindent, rfl⟩, _, rfl, htail⟩ := h
  obtain ⟨gap, _, _, _, rfl, rfl, hgap, hline⟩ := reads_seq_iff.mp htail
  obtain ⟨text, _, _, _, rfl, rfl, hstretch, hend⟩ :=
    reads_group_append.mp hline
  obtain ⟨htext, rfl⟩ := reads_many_iff.mp hstretch
  obtain ⟨rfl, rfl, -⟩ := reads_anchor_iff.mp hend
  rcases reads_optional_iff.mp hgap with hgap | ⟨rfl, rfl⟩
  · obtain ⟨c, hc, rfl, rfl⟩ := reads_one_iff.mp hgap
    exact ⟨indent, [c], text, by simp, rfl, hindent, by simpa using hc, htext⟩
  · exact ⟨indent, [], text, by simp, rfl, hindent, by simp, htext⟩

theorem shape_dualEmptyInit (h : dualEmptyInitPattern.Reads before u rest gs) :
    ∃ indent first second b₁ b₂ b₃ b₄ b₅ b₆ : Text,
      u = indent ++ (first ++
        (b₁ ++ ("," ++
          (b₂ ++ (second ++ (b₃ ++ ("=" ++ (b₄ ++ ("[]" ++ (b₅ ++ ("," ++ (b₆ ++
        "[]")))))))))))) ∧
      gs = [some indent, some first, some second] ∧
      (∀ c ∈ indent, isIndent c = true) ∧ IsName first ∧ IsName second ∧
      ∀ b ∈ [b₁, b₂, b₃, b₄, b₅, b₆], ∀ c ∈ b, isBlank c = true := by
  simp only [dualEmptyInitPattern, Pattern.indent, blanks, word,
    reads_append_assoc, reads_anchor_append, reads_literal_append,
    reads_many_append, reads_group_append, reads_many_iff, reads_many1_iff,
    reads_literal_iff] at h
  obtain ⟨-, indent, _, _, _, rfl, rfl, ⟨hindent, rfl⟩, first, _, _, _, rfl,
    rfl, ⟨hfirst, hfword, rfl⟩, b₁, _, rfl, h₁, _, rfl, b₂, _, rfl, h₂, second,
    _, _, _, rfl, rfl, ⟨hsecond, hsword, rfl⟩, b₃, _, rfl, h₃, _, rfl, b₄, _,
    rfl, h₄, _, rfl, b₅, _, rfl, h₅, _, rfl, b₆, _, rfl, h₆, rfl, rfl⟩ := h
  refine ⟨indent, first, second, b₁, b₂, b₃, b₄, b₅, b₆, rfl, rfl, hindent,
    ⟨hfirst, hfword⟩, ⟨hsecond, hsword⟩, ?_⟩
  simp only [List.forall_mem_cons, List.not_mem_nil, false_imp_iff,
    implies_true, and_true]
  exact ⟨h₁, h₂, h₃, h₄, h₅, h₆⟩

theorem shape_rangeLenMinus (h : rangeLenMinusPattern.Reads before u rest gs) :
    ∃ list count b b' : Text,
      u = "range(len(" ++ (list ++
        (")" ++ (b ++ ("-" ++ (b' ++ (count ++ ")")))))) ∧
      gs = [some list, some count] ∧ IsName list ∧ IsName count ∧
      (∀ c ∈ b, isBlank c = true) ∧
      ∀ c ∈ b', isBlank c = true := by
  simp only [rangeLenMinusPattern, blanks, word, reads_append_assoc,
    reads_literal_append, reads_many_append, reads_group_append,
    reads_many1_iff, reads_literal_iff] at h
  obtain ⟨_, rfl, list, _, _, _, rfl, rfl, ⟨hlist, hlword, rfl⟩, _, rfl, b, _,
    rfl, hb, _, rfl, b', _, rfl, hb', count, _, _, _, rfl, rfl,
    ⟨hcount, hcword, rfl⟩, rfl, rfl⟩ := h
  exact ⟨list, count, b, b', rfl, rfl, ⟨hlist, hlword⟩,
    ⟨hcount, hcword⟩, hb, hb'⟩

theorem shape_lenCall (h : lenCallPattern.Reads before u rest gs) :
    ∃ name : Text, u = "len(" ++ (name ++ ")") ∧ gs = [some name] ∧ IsName name ∧
      Anchor.wordEdge.holds before (u ++ rest) = true := by
  simp only [lenCallPattern, word, reads_append_assoc, reads_anchor_append,
    reads_literal_append, reads_group_append, reads_many1_iff,
    reads_literal_iff] at h
  obtain ⟨hedge, _, rfl, name, _, _, _, rfl, rfl, ⟨hname, hword, rfl⟩,
    rfl, rfl⟩ := h
  exact ⟨name, rfl, rfl, ⟨hname, hword⟩, hedge⟩

theorem reads_slice_iff :
    slicePattern.Reads before u rest gs ↔
      ∃ name start stop b : Text, u =
        name ++ ("[" ++ (start ++ (":" ++ (stop ++ (b ++ "]"))))) ∧
        gs = [some name, some start, some stop] ∧ IsName name ∧
        (∀ c ∈ start, (c != '[' && c != ']' && c != ':') = true) ∧
        (∀ c ∈ stop, (c != '[' && c != ']') = true) ∧
        (∀ c ∈ b, isBlank c = true) ∧
        Anchor.wordEdge.holds before (u ++ rest) = true := by
  simp only [slicePattern, blanks, word, reads_append_assoc,
    reads_anchor_append, reads_literal_append, reads_many_append,
    reads_group_append, reads_many_iff, reads_many1_iff, reads_literal_iff]
  constructor
  · rintro ⟨hedge, name, _, _, _, rfl, rfl, ⟨hname, hword, rfl⟩, _, rfl, start,
      _, _, _, rfl, rfl, ⟨hstart, rfl⟩, _,
      rfl, stop, _, _, _, rfl, rfl, ⟨hstop, rfl⟩, b, _, rfl, hb, rfl, rfl⟩
    exact ⟨name, start, stop, b, rfl, rfl, ⟨hname, hword⟩, hstart,
      hstop, hb, hedge⟩
  · rintro ⟨name, start, stop, b, rfl, rfl, ⟨hname, hword⟩, hstart,
      hstop, hb, hedge⟩
    exact ⟨hedge, name, _, _, _, rfl, rfl, ⟨hname, hword, rfl⟩, _, rfl, start,
      _, _, _, rfl, rfl, ⟨hstart, rfl⟩, _, rfl, stop, _, _, _, rfl, rfl,
      ⟨hstop, rfl⟩, b, _, rfl, hb, rfl, rfl⟩

/-- The range has blanks around its sign, and no other line feeds. -/
def RangeShape (range : Text) : Prop :=
  ∃ b b' value : Text, range =
    "feature_range" ++ (b ++ ("=" ++ (b' ++ ("(" ++ value)))) ∧
    (∀ c ∈ b, isBlank c = true) ∧ (∀ c ∈ b', isBlank c = true) ∧ '\n' ∉ value

theorem shape_scalerConstructor
    (h : scalerConstructorPattern.Reads before u rest gs) :
    ∃ indent name b b' range value : Text,
      u = indent ++ (name ++
        (b ++ ("=" ++ (b' ++ ("MinMaxScaler(" ++ (range ++ value)))))) ∧
      '\n' ∉ indent ∧ name ≠ [] ∧ (∀ c ∈ name, isWord c = true) ∧
      (∀ c ∈ b, isBlank c = true) ∧
      (∀ c ∈ b', isBlank c = true) ∧ (range = [] ∨ RangeShape range) ∧
      '\n' ∉ value := by
  simp only [scalerConstructorPattern, Pattern.indent, word, blanks, stretch,
    reads_append_assoc, reads_anchor_append, reads_literal_append,
    reads_many_append, reads_group_append, reads_many_iff, reads_many1_iff] at h
  obtain ⟨-, indent, _, _, _, rfl, -, ⟨hindent, -⟩, name, _, _, _, rfl, -,
    ⟨hname, hword, -⟩, b, _, rfl, hb, _, rfl, b', _, rfl, hb', _, rfl,
    htail⟩ := h
  obtain ⟨range, _, _, _, rfl, -, hrange, hvalue⟩ := reads_seq_iff.mp htail
  simp only [reads_literal_append, reads_many_append,
    reads_anchor_iff] at hvalue
  obtain ⟨args, _, rfl, hargs, _, rfl, close, _, rfl, hclose, rfl, -⟩ := hvalue
  refine ⟨indent, name, b, b', range, _, rfl, ?_, hname, hword, hb, hb', ?_, ?_⟩
  · exact Text.not_mem_of_forall hindent (by decide)
  · rcases reads_optional_iff.mp hrange with hrange | ⟨rfl, -⟩
    · simp only [reads_append_assoc, reads_literal_append, reads_many_append,
        reads_group_append, reads_many_iff, reads_literal_iff] at hrange
      obtain ⟨_, rfl, g, _, rfl, hg, _, rfl, g', _, rfl, hg', _, rfl, bounds, _,
        _, _, rfl, -, ⟨hbounds, -⟩, rfl, -⟩ := hrange
      have hbreak : '\n' ∉ bounds := Text.not_mem_of_forall hbounds (by decide)
      exact Or.inr ⟨g, g', _, rfl, hg, hg', by simpa using hbreak⟩
    · exact Or.inl rfl
  · have hbreak : '\n' ∉ args := Text.not_mem_of_forall hargs (by decide)
    have hbreak' : '\n' ∉ close := Text.not_mem_of_forall hclose (by decide)
    simp [hbreak, hbreak']

end Idiom

end Recast
