import Mathlib.Data.List.Basic
import Recast.Block
import Recast.Proofs.Text.Layout
import Recast.Rendering.Statement
import Recast.Target.Lexicon

/-!
# Headers of Go functions

A header is written from a name and from parameters with their kinds. Its
brackets are those of the parameters and those of the results, so that a header
can be told from what follows it (`header_unique`), and no header starts inside
another (`header_not_inside`). A text of headers with other text behind each of
them can therefore be cut into its functions in one way only, if that other text
has no headers (`map_segment_unique`).
-/

namespace Recast

/-- What the header of a Go function is written from. The indentation leaves no
trace. -/
structure GoSignature where
  name : Text
  params : List (Text × Kind)
  indent : Text
  name_ne_nil : name ≠ []
  word_name : ∀ c ∈ name, isWord c = true
  params_ne_nil : ∀ p ∈ params, p.1 ≠ []
  word_params : ∀ p ∈ params, ∀ c ∈ p.1, isWord c = true

namespace GoSignature

/-- A signature without indentation, from conditions that can be evaluated. -/
def flush (name : Text) (params : List (Text × Kind))
    (hname : (!name.isEmpty && name.all isWord) = true)
    (hparams : (params.all fun p => !p.1.isEmpty && p.1.all isWord) = true) :
    GoSignature where
  name := name
  params := params
  indent := []
  name_ne_nil := by
    rintro rfl
    simp at hname
  word_name := List.all_eq_true.mp (Bool.and_eq_true_iff.mp hname).2
  params_ne_nil := by
    intro p hp hnil
    have hparam := List.all_eq_true.mp hparams p hp
    rw [hnil] at hparam
    simp at hparam
  word_params := fun p hp =>
    List.all_eq_true.mp
      (Bool.and_eq_true_iff.mp (List.all_eq_true.mp hparams p hp)).2

variable (s : GoSignature)

/-- The header, up to the brace that opens the body. -/
def header : Text :=
  Target.go.functionHeader s.name
    (s.params.map fun p => (p.1, Target.go.typeName p.2)) s.indent

/-- The parameters, each with its type. -/
def list : Text :=
  Text.join ", " (s.params.map fun p => p.1 ++ " " ++ Target.go.typeName p.2)

/-- The results that every function is given. -/
def results : Text := "(x, y [][]float64, err error)"

theorem header_eq :
    s.header =
      "func" ++
      (" " ++ (s.name ++
        ("(" ++ (s.list ++
          (")" ++ (" " ++ (results ++ (" " ++ "\x7b")))))))) := by
  have hparams : (s.params.map fun p => (p.1, Target.go.typeName p.2)).map
      (fun p => p.1 ++ " ".toList ++ p.2) =
      s.params.map fun p => p.1 ++ " ".toList ++ Target.go.typeName p.2 :=
        List.map_map
  have hopen : "func ".toList = "func".toList ++ " ".toList := by decide
  have hclose : ") (x, y [][]float64, err error) \x7b".toList =
      ")".toList ++
      (" ".toList ++ (results ++ (" ".toList ++ "\x7b".toList))) := by decide
  show "func ".toList ++ s.name ++ "(".toList ++
    Text.join ", ".toList (List.map _ _) ++
    ") (x, y [][]float64, err error) \x7b".toList = _
  rw [hparams, hopen, hclose, list]
  simp only [List.append_assoc]

/-! ## Brackets -/

theorem ne_brackets_of_isWord {c : Char} (h : isWord c = true) :
    c ≠ '(' ∧ c ≠ ')' := by
  constructor <;> rintro rfl <;> exact absurd h (by decide)

theorem ne_brackets_typeName (k : Kind) :
    ∀ c ∈ Target.go.typeName k, c ≠ '(' ∧ c ≠ ')' := by
  have hall : (Target.go.typeName k).all (fun c => decide (c ≠ '(' ∧ c ≠ ')')) =
      true := by
    cases k <;> decide
  exact fun c hc => of_decide_eq_true (List.all_eq_true.mp hall c hc)

theorem ne_brackets_list : ∀ c ∈ s.list, c ≠ '(' ∧ c ≠ ')' := by
  refine Text.forall_mem_join (P := fun c => c ≠ '(' ∧ c ≠ ')') (by simp) ?_
  intro part hpart c hc
  obtain ⟨p, hp, rfl⟩ := List.mem_map.mp hpart
  simp only [List.mem_append] at hc
  rcases hc with (hc | hc) | hc
  · exact ne_brackets_of_isWord (s.word_params p hp c hc)
  · obtain rfl : c = ' ' := by simpa using hc
    decide
  · exact ne_brackets_typeName p.2 c hc

/-- A header with its two opening brackets in view. -/
theorem header_eq_brackets : s.header =
    ("func " ++ s.name) ++ '(' :: ((s.list ++ ") ") ++
      '(' :: "x, y [][]float64, err error) \x7b") := by
  have hopen : "func ".toList = "func".toList ++ " ".toList := by decide
  have hresults : results ++ (" " ++ "\x7b") =
      '(' :: "x, y [][]float64, err error) \x7b".toList := by decide
  rw [header_eq, hresults, hopen]
  simp

/-- The brace is the last character of a header. -/
theorem exists_header_eq :
    ∃ front : Text, s.header = front ++ [Block.opening] :=
  ⟨"func" ++
    (" " ++ (s.name ++
      ("(" ++ (s.list ++ (")" ++ (" " ++ (results ++ " "))))))), by
    rw [header_eq]
    simp [Block.opening]⟩

theorem head?_header : s.header.head? = some 'f' := by
  rw [header_eq]
  rfl

/-! ## Telling headers apart -/

variable {s}
variable {s' : GoSignature}

theorem not_mem_front {c : Char} (hfunc : c ∉ "func ".toList)
    (hc : isWord c = false) (s : GoSignature) :
    c ∉ "func ".toList ++ s.name := by
  intro hmem
  rcases List.mem_append.mp hmem with hmem | hmem
  · exact hfunc hmem
  · exact Text.not_mem_of_forall s.word_name hc hmem

/-- Where two texts that start with headers are the same, so are the headers. -/
theorem header_unique {x x' : Text} (h : s.header ++ x = s'.header ++ x') :
    s.header = s'.header ∧ x = x' := by
  have hfronts : ("func ".toList ++ s.name) ++ '(' ::
        ((s.list ++ ") ") ++ '(' :: "x, y [][]float64, err error) \x7b" ++ x) =
      ("func ".toList ++ s'.name) ++ '(' ::
        ((s'.list ++ ") ") ++
          '(' :: "x, y [][]float64, err error) \x7b" ++ x') := by
    rw [header_eq_brackets, header_eq_brackets] at h
    simpa using h
  have hopen (s : GoSignature) : ∀ c ∈ "func ".toList ++ s.name,
      (c != '(') = true :=
    Text.forall_bne_of_not_mem (s.not_mem_front (by decide) (by decide))
  obtain ⟨hname, hrest⟩ := Text.run_unique (hopen s) (hopen s') (by decide)
    (by decide) hfronts
  have hclose (s : GoSignature) : ∀ c ∈ s.list, (c != ')') = true :=
    Text.forall_bne_of_not_mem fun hc => (s.ne_brackets_list _ hc).2 rfl
  have hlists : s.list ++ ')' :: (" (x, y [][]float64, err error) \x7b" ++ x) =
      s'.list ++ ')' :: (" (x, y [][]float64, err error) \x7b" ++ x') := by
    simpa using (List.cons.inj hrest).2
  obtain ⟨hlist, htail⟩ := Text.run_unique (hclose s) (hclose s') (by decide)
    (by decide) hlists
  have hheader : s.header = s'.header := by
    rw [header_eq_brackets, header_eq_brackets, hname, hlist]
  exact ⟨hheader, List.append_cancel_left (hheader ▸ h)⟩

/-- A bracket that is the first after `a` is the first or the second of a text
that has two. -/
theorem bracket_cases {x a y b d e : Text} (ha : '(' ∉ a) (hb : '(' ∉ b)
    (hd : '(' ∉ d) (he : '(' ∉ e)
    (h : x ++ (a ++ '(' :: y) = b ++ '(' :: (d ++ '(' :: e)) :
    x ++ a = b ∨ ∃ z, z ++ a = d := by
  rw [← List.append_assoc] at h
  obtain ⟨z, hz, hrest⟩ := Text.place_in_second h hb
  cases z with
  | nil => exact Or.inl (by rw [hz, List.append_nil])
  | cons c z =>
      obtain ⟨rfl, hinner⟩ := List.cons.inj hrest
      rcases Text.place_in_append hz.symm with ⟨v, -, rfl⟩ | ⟨v, -, hv⟩
      · obtain ⟨w, hw, hafter⟩ := Text.place_in_second hinner.symm hd
        cases w with
        | nil => exact Or.inr ⟨v, by rw [hw, List.append_nil]⟩
        | cons c w =>
            obtain ⟨rfl, rfl⟩ := List.cons.inj hafter
            simp at he
      · simp [hv] at ha

/-- No header starts inside another. A bracket would have to follow its name,
and in the other header a bracket follows the name or a blank. -/
theorem header_not_inside {x y z w : Text} (hx : x ≠ []) (hy : y ≠ [])
    (h : s.header = x ++ y) :
    y ++ z ≠ s'.header ++ w := by
  intro heq
  have hopen (s : GoSignature) : '(' ∉ "func ".toList ++ s.name :=
    s.not_mem_front (by decide) (by decide)
  -- the brace at the end of `y` lies behind the bracket after the name
  have hfront : ∃ v, y = ("func ".toList ++ s'.name) ++ '(' :: v := by
    obtain ⟨front, hbrace⟩ := s.exists_header_eq
    have hlast : Block.opening ∈ y := by
      have hend : (x ++ y).getLast? = some Block.opening := by
        rw [← h, hbrace, List.getLast?_concat]
      rw [List.getLast?_append_of_ne_nil _ hy] at hend
      exact List.mem_of_getLast? hend
    rw [header_eq_brackets, List.append_assoc, List.cons_append] at heq
    rcases Text.place_in_append heq.symm with ⟨v, hv, -⟩ | ⟨v, hv, -⟩
    · exact ⟨v, hv⟩
    · have hmem : Block.opening ∈ "func ".toList ++ s'.name :=
        hv ▸ List.mem_append_left v hlast
      exact absurd hmem (s'.not_mem_front (by decide) (by decide))
  obtain ⟨v, rfl⟩ := hfront
  have hlist : '(' ∉ s.list ++ ") ".toList := by
    have hmem : '(' ∉ s.list := fun hc => (s.ne_brackets_list _ hc).1 rfl
    simp [hmem]
  rw [header_eq_brackets] at h
  rcases bracket_cases (hopen s') (hopen s) hlist (by decide) h.symm with
    hname | ⟨u, hu⟩
  · -- the blank behind `func` is the only one in front of the bracket
    have hblank : (x ++ "func".toList) ++ ' ' :: s'.name =
        "func".toList ++ ' ' :: s.name := by
      simpa using hname
    obtain ⟨g, hg, hafter⟩ := Text.place_in_second hblank (by decide)
    cases g with
    | nil => exact hx (by simpa using hg)
    | cons d g =>
        obtain ⟨rfl, hmem⟩ := List.cons.inj hafter
        exact Text.not_mem_of_forall s.word_name
          (by decide : isWord ' ' = false) (by simp [hmem])
  · have hlast : (u ++ ("func ".toList ++ s'.name)).getLast? =
        s'.name.getLast? := by
      rw [← List.append_assoc, List.getLast?_append_of_ne_nil _ s'.name_ne_nil]
    have hspace : s'.name.getLast? = some ' ' := by
      rw [← hlast, hu]
      simp
    have hword := s'.word_name ' ' (List.mem_of_getLast? hspace)
    exact absurd hword (by decide)

/-! ## Functions one after the other -/

/-- A function: its header and the text up to the next one. -/
def segment (u : GoSignature × Text) : Text := u.1.header ++ u.2

/-- Functions one after the other. -/
def laidOut (us : List (GoSignature × Text)) : Text := us.flatMap segment

/-- No header occurs in the text. -/
def Headless (t : Text) : Prop := ∀ s : GoSignature, ¬ s.header <:+: t

theorem Headless.of_infix {t u : Text} (h : Headless t) (hu : u <:+: t) :
    Headless u :=
  fun s hs => h s (hs.trans hu)

/-- A text without the brace that ends a header has no header in it. -/
theorem headless_of_opening_not_mem {t : Text} (h : Block.opening ∉ t) :
    Headless t := by
  intro s hs
  obtain ⟨front, hbrace⟩ := s.exists_header_eq
  exact h (hs.subset (by simp [hbrace]))

theorem Headless.append {b x : Text} (hb : Headless b)
    (hx : Block.opening ∉ x) : Headless (b ++ x) := by
  rintro s ⟨p, q, h⟩
  obtain ⟨front, hbrace⟩ := s.exists_header_eq
  have hplace : (p ++ front) ++ Block.opening :: q = b ++ x := by
    rw [← h, hbrace]
    simp
  rcases Text.place_in_append hplace with ⟨y, hy, -⟩ | ⟨y, -, hy⟩
  · exact hb s ⟨p, y, by rw [hy, hbrace]; simp⟩
  · exact hx (by simp [hy])

theorem header_ne_nil (s : GoSignature) : s.header ≠ [] := by
  intro h
  have hhead := s.head?_header
  rw [h] at hhead
  simp at hhead

theorem laidOut_cons (u : GoSignature × Text) (us : List (GoSignature × Text)) :
    laidOut (u :: us) = u.1.header ++ (u.2 ++ laidOut us) := by
  rw [laidOut, List.flatMap_cons, segment, List.append_assoc]
  rfl

theorem laidOut_eq_nil_iff {us : List (GoSignature × Text)} :
    laidOut us = [] ↔ us = [] := by
  cases us with
  | nil => simp [laidOut]
  | cons u us => simp [laidOut_cons, header_ne_nil]

theorem head?_laidOut (us : List (GoSignature × Text)) :
    ∀ c ∈ (laidOut us).head?, c = 'f' := by
  cases us with
  | nil => simp [laidOut]
  | cons u us =>
      rw [laidOut_cons, List.head?_append, head?_header]
      simp

/-- What stands in front of functions cannot take in the start of one of
them. -/
theorem eq_nil_of_headless {d : Text} {us us' : List (GoSignature × Text)}
    (hd : Headless d) (h : laidOut us = d ++ laidOut us') : d = [] := by
  by_contra hne
  cases us with
  | nil =>
      have hnil : d ++ laidOut us' = [] := h.symm
      exact hne (List.append_eq_nil_iff.mp hnil).1
  | cons u us =>
      rw [laidOut_cons] at h
      rcases List.append_eq_append_iff.mp h with ⟨e, hdu, -⟩ | ⟨e, hu, hrest⟩
      · exact hd u.1 (hdu ▸ (List.prefix_append _ e).isInfix)
      · -- the header goes beyond `d`, into the next one
        cases us' with
        | nil =>
            have hnil : e = [] := (List.append_eq_nil_iff.mp hrest.symm).1
            rw [hnil, List.append_nil] at hu
            exact hd u.1 (hu ▸ List.infix_rfl)
        | cons u' us' =>
            rw [laidOut_cons] at hrest
            by_cases he : e = []
            · rw [he, List.append_nil] at hu
              exact hd u.1 (hu ▸ List.infix_rfl)
            · exact header_not_inside hne he hu hrest.symm

/-- What stands behind a header ends where the next function starts. -/
theorem body_unique {b b' : Text} {us us' : List (GoSignature × Text)}
    (hb : Headless b) (hb' : Headless b')
    (h : b ++ laidOut us = b' ++ laidOut us') :
    b = b' ∧ laidOut us = laidOut us' := by
  rcases List.append_eq_append_iff.mp h with ⟨d, rfl, htail⟩ | ⟨d, rfl, htail⟩
  · obtain rfl :=
      eq_nil_of_headless (hb'.of_infix (List.suffix_append b d).isInfix) htail
    exact ⟨(List.append_nil b).symm, htail⟩
  · obtain rfl :=
      eq_nil_of_headless (hb.of_infix (List.suffix_append b' d).isInfix) htail
    exact ⟨List.append_nil b', htail.symm⟩

/-- The functions of a text can be read off it. -/
theorem map_segment_unique {us us' : List (GoSignature × Text)}
    (hus : ∀ u ∈ us, Headless u.2) (hus' : ∀ u ∈ us', Headless u.2)
    (h : laidOut us = laidOut us') : us.map segment = us'.map segment := by
  induction us generalizing us' with
  | nil =>
      obtain rfl := laidOut_eq_nil_iff.mp h.symm
      rfl
  | cons u us ih =>
      cases us' with
      | nil => exact absurd (laidOut_eq_nil_iff.mp h) (by simp)
      | cons u' us' =>
          obtain ⟨hu, hrest⟩ := List.forall_mem_cons.mp hus
          obtain ⟨hu', hrest'⟩ := List.forall_mem_cons.mp hus'
          rw [laidOut_cons, laidOut_cons] at h
          obtain ⟨hheader, htail⟩ := header_unique h
          obtain ⟨hbody, hlater⟩ := body_unique hu hu' htail
          rw [List.map_cons, List.map_cons, ih hrest hrest' hlater, segment,
            segment, hheader, hbody]

end GoSignature

end Recast
