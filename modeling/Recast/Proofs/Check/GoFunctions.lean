import Recast.Proofs.Check.Coverage
import Recast.Proofs.Pattern.Choice
import Recast.Proofs.Rendering.GoHeader

/-!
# Go functions read back

The checks of Go read the functions of a text off their headers. From a text of
headers with other text before, between and behind them they read what the
headers were written from, if that other text does not contain `func`
(`goFunctions_of_headers`). The pattern may run over line breaks and braces, yet
it takes each header whole and nothing else: it stops at the bracket that closes
the parameters, and no match starts outside a header.
-/

namespace Recast

open Pattern

namespace GoSignature

/-! ## One header -/

/-- The groups of a header: name, parameters and results with the blank behind
them. -/
def groups (s : GoSignature) : List (Option Text) :=
  [some s.name, some s.list, some (results ++ " ")]

/-- A header is taken whole. -/
theorem picks_goHeader (s : GoSignature) (before : Option Char) (rest : Text) :
    Check.goHeader.Picks (fun _ _ => True) before s.header rest s.groups := by
  have hspace : ∀ c ∈ " ".toList, isBlank c = true :=
    List.all_eq_true.mp (by decide)
  have hlist : ∀ c ∈ s.list, (c != ')') = true :=
    Text.forall_bne_of_not_mem fun hc => (s.ne_brackets_list _ hc).2 rfl
  obtain ⟨c, name, hname⟩ := List.exists_cons_of_ne_nil s.name_ne_nil
  have hc : isBlank c = false :=
    isBlank_of_isWord (s.word_name c (by simp [hname]))
  rw [s.header_eq, groups]
  simp only [Check.goHeader, picks_append_assoc]
  apply Picks.literal_append
  apply Picks.run1_append (by simp) hspace (by simpa [hname] using hc)
  apply Picks.group_run1_append s.name_ne_nil s.word_name rfl
  apply Picks.literal_append
  apply Picks.group_run_append hlist rfl
  apply Picks.literal_append
  apply Picks.run_append hspace rfl
  rw [← List.append_assoc]
  apply Picks.group_run_append (List.all_eq_true.mp (by decide)) rfl
  exact picks_literal trivial

/-! ## Headers among other text -/

/-- A match starts with `func`. -/
theorem func_of_matchAt {before : Option Char} {t : Text} {m : Match}
    (h : Check.goHeader.matchAt before t = some m) :
    ['f', 'u', 'n', 'c'] <+: t := by
  obtain ⟨rest, rfl, -, hread⟩ := matchAt_reads h
  simp only [Check.goHeader, reads_append_assoc, reads_literal_append] at hread
  obtain ⟨w, hw, -⟩ := hread
  rw [hw]
  exact ⟨w ++ rest, by simp⟩

/-- No match starts in a text without `func`, whether it is the last or a header
follows it. -/
theorem matchAt_goHeader_eq_none {t : Text} (ht : t.mentions "func" = false)
    {next : Text} (hnext : ∀ c ∈ next.head?, c = 'f') {pre post : Text}
    {c : Char} (hplace : t = pre ++ c :: post) (before : Option Char) :
    Check.goHeader.matchAt before (c :: (post ++ next)) = none := by
  rw [Option.eq_none_iff_forall_ne_some]
  intro m hm
  have hfunc := func_of_matchAt hm
  -- a start of the word that is cut off would go on with `f`
  have hcut : ∀ d, d ≠ 'f' → ∀ w, ¬ d :: w <+: next := by
    rintro d hd w ⟨x, rfl⟩
    exact hd (hnext d rfl)
  rw [List.cons_prefix_cons] at hfunc
  obtain ⟨rfl, hfunc⟩ := hfunc
  match post, hplace with
  | [], _ => exact hcut 'u' (by decide) _ hfunc
  | [_], _ => exact hcut 'n' (by decide) _ (List.cons_prefix_cons.mp hfunc).2
  | [_, _], _ =>
      exact hcut 'c' (by decide) _
        (List.cons_prefix_cons.mp (List.cons_prefix_cons.mp hfunc).2).2
  | u :: n :: c :: post, hplace =>
      simp only [List.cons_append, List.cons_prefix_cons] at hfunc
      obtain ⟨rfl, rfl, rfl, -⟩ := hfunc
      exact Text.mentions_eq_false_iff.mp ht ⟨pre, post, by rw [hplace]; simp⟩

/-- The scan takes the headers and passes over all else. -/
theorem divides_laidOut {us : List (GoSignature × Text)}
    (hus : ∀ u ∈ us, u.2.mentions "func" = false) (before : Option Char) :
    ∃ ss, Check.goHeader.Divides before (laidOut us) ss ∧
      (ss.filterMap Segment.hit?).map Match.groups =
        us.map fun u => u.1.groups := by
  induction us generalizing before with
  | nil => exact ⟨[], .nil, rfl⟩
  | cons u us ih =>
      obtain ⟨hu, hrest⟩ := List.forall_mem_cons.mp hus
      obtain ⟨ss, hlater, hgroups⟩ :=
        ih hrest (Text.lastOr before (u.1.header ++ u.2))
      rw [Text.lastOr_append] at hlater
      have hbody := Divides.gaps_append
        (fun pre c post hplace => matchAt_goHeader_eq_none hu
          (head?_laidOut us) hplace _) hlater
      obtain ⟨m, -, hm, hdivides⟩ :=
        (u.1.picks_goHeader before _).divides_append u.1.header_ne_nil hbody
      refine ⟨_, laidOut_cons u us ▸ hdivides, ?_⟩
      have hgaps : (u.2.map Segment.gap).filterMap Segment.hit? = [] := by
        simp [List.filterMap_map, Function.comp_def, Segment.hit?]
      rw [List.filterMap_cons, Segment.hit?, List.map_cons,
        List.filterMap_append, hgaps, List.nil_append, hm, hgroups,
        List.map_cons]

/-! ## What is read -/

/-- What the checks know of a function. -/
def declared (s : GoSignature) : Check.GoFunction := ⟨s.name, s.list, results⟩

theorem filterMap_of_groups {ms : List Match} {us : List (GoSignature × Text)}
    (h : ms.map Match.groups = us.map fun u => u.1.groups) :
    (ms.filterMap fun m =>
        if m.group 0 = ("main" : Text) then none
        else some (⟨m.group 0, m.group 1, (m.group 2).trim⟩ : Check.GoFunction)) =
      ((us.map Prod.fst).filter (·.name ≠ "main".toList)).map declared := by
  induction us generalizing ms with
  | nil =>
      obtain rfl := List.map_eq_nil_iff.mp h
      rfl
  | cons u us ih =>
      cases ms with
      | nil => simp at h
      | cons m ms =>
          obtain ⟨hm, hms⟩ := List.cons.inj h
          have hgroups : m.group 0 = u.1.name ∧ m.group 1 = u.1.list ∧
              m.group 2 = results ++ " " := by
            simp [Match.group, hm, groups]
          have htrim : (results ++ " ").trim = results := by decide
          rw [List.filterMap_cons, hgroups.1, hgroups.2.1, hgroups.2.2, htrim,
            ih hms, List.map_cons, List.filter_cons]
          by_cases hmain : u.1.name = "main".toList
          · rw [if_pos hmain, if_neg (by simp [hmain])]
          · rw [if_neg hmain, if_pos (decide_eq_true hmain)]
            rfl

theorem goFunctions_laidOut {lead : Text} {us : List (GoSignature × Text)}
    (hlead : lead.mentions "func" = false)
    (hus : ∀ u ∈ us, u.2.mentions "func" = false) :
    Check.goFunctions (lead ++ laidOut us) =
      ((us.map Prod.fst).filter (·.name ≠ "main".toList)).map declared := by
  obtain ⟨ss, hlater, hgroups⟩ := divides_laidOut hus (Text.lastOr none lead)
  have hdivides := Divides.gaps_append
    (fun pre c post hplace => matchAt_goHeader_eq_none hlead
      (head?_laidOut us) hplace _) hlater
  have hgaps : (lead.map Segment.gap).filterMap Segment.hit? = [] := by
    simp [List.filterMap_map, Function.comp_def, Segment.hit?]
  rw [Check.goFunctions, hdivides.matchesIn_eq, List.filterMap_append, hgaps,
    List.nil_append]
  exact filterMap_of_groups hgroups

/-! ## Parameters -/

theorem words_of_no_blank {t : Text} (hne : t ≠ [])
    (h : ∀ c ∈ t, isBlank c = false) : t.words = [t] := by
  rw [Text.words, Text.fieldsBy_eq_singleton h,
    List.filter_cons_of_pos (by simpa using hne), List.filter_nil]

theorem typeName_ne_nil (k : Kind) :
    Target.go.typeName k ≠ [] ∧
    ∀ c ∈ Target.go.typeName k, isBlank c = false := by
  have hall : (Target.go.typeName k).all (fun c => !isBlank c) = true := by
    cases k <;> decide
  refine ⟨by cases k <;> decide, fun c hc => ?_⟩
  simpa using List.all_eq_true.mp hall c hc

/-- A parameter is two words, its name and its type. -/
theorem words_param {s : GoSignature} {p : Text × Kind} (hp : p ∈ s.params) :
    (p.1 ++ " " ++ Target.go.typeName p.2).words =
      [p.1, Target.go.typeName p.2] := by
  obtain ⟨hne, hblank⟩ := typeName_ne_nil p.2
  have hname := words_of_no_blank (s.params_ne_nil p hp) fun c hc =>
    isBlank_of_isWord (s.word_params p hp c hc)
  have hspace : p.1 ++ " " ++ Target.go.typeName p.2 =
      p.1 ++ ' ' :: Target.go.typeName p.2 := by simp
  rw [hspace, Text.words_append_blank (by decide), hname,
    words_of_no_blank hne hblank]
  rfl

theorem comma_not_mem_param {s : GoSignature} {p : Text × Kind}
    (hp : p ∈ s.params) :
    ',' ∉ p.1 ++ " " ++ Target.go.typeName p.2 := by
  have hname : ',' ∉ p.1 :=
    Text.not_mem_of_forall (s.word_params p hp) (by decide)
  have htype : ',' ∉ Target.go.typeName p.2 := by
    cases p.2 <;> decide
  simp [hname, htype]

/-- The fields of a parameter list are its parameters, up to a blank in
front. -/
theorem words_of_mem_fields {s : GoSignature} {f : Text}
    (hf : f ∈ s.list.fields ',') :
    f = [] ∨ ∃ p ∈ s.params, f.words = [p.1, Target.go.typeName p.2] := by
  cases hparams : s.params with
  | nil =>
      rw [list, hparams] at hf
      exact Or.inl (List.mem_singleton.mp hf)
  | cons p ps =>
      have hcommas : s.list =
          Text.join [','] ((p.1 ++ " " ++ Target.go.typeName p.2) ::
          ps.map fun q => ' ' :: (q.1 ++ " " ++ Target.go.typeName q.2)) := by
        rw [list, hparams, List.map_cons, Text.join_cons, Text.join_cons,
          List.flatMap_map, List.flatMap_map]
        rfl
      have hmem {q : Text × Kind} (hq : q ∈ p :: ps) : q ∈ s.params :=
        hparams ▸ hq
      rw [hcommas, Text.fields_join (by simp)] at hf
      · right
        rcases List.mem_cons.mp hf with rfl | hf
        · exact ⟨p, List.mem_cons_self, words_param (hmem List.mem_cons_self)⟩
        · obtain ⟨q, hq, rfl⟩ := List.mem_map.mp hf
          have hqs := List.mem_cons_of_mem p hq
          exact ⟨q, hqs, (Text.words_cons_blank (by decide) _).trans
            (words_param (hmem hqs))⟩
      · intro part hpart
        rcases List.mem_cons.mp hpart with rfl | hpart
        · exact comma_not_mem_param (hmem List.mem_cons_self)
        · obtain ⟨q, hq, rfl⟩ := List.mem_map.mp hpart
          simpa using comma_not_mem_param (hmem (List.mem_cons_of_mem p hq))

/-! ## The checks -/

theorem mentions_error {us : List (GoSignature × Text)} {u : GoSignature × Text}
    (hu : u ∈ us) (lead : Text) :
    (lead ++ laidOut us).mentions "error" = true := by
  have hresults : results = "(x, y [][]float64, err ".toList ++
      ("error".toList ++ ")".toList) := by decide
  have hheader : "error".toList <:+: u.1.header := by
    refine ⟨"func" ++
      (" " ++ (u.1.name ++
        ("(" ++ (u.1.list ++ (")" ++ (" " ++ "(x, y [][]float64, err ")))))),
      ")" ++ (" " ++ "\x7b"), ?_⟩
    rw [u.1.header_eq, hresults]
    simp only [List.append_assoc]
  obtain ⟨us₁, us₂, rfl⟩ := List.append_of_mem hu
  have hsegment : u.1.header <:+: lead ++ laidOut (us₁ ++ u :: us₂) :=
    ⟨lead ++ laidOut us₁, u.2 ++ laidOut us₂, by simp [laidOut, segment]⟩
  exact (Text.mentions_iff _ _).mpr (hheader.trans hsegment)

/-- **Functions read back.** From a text of headers with other text before,
between and behind them, none of it with `func`, the checks of Go read the
functions in order, apart from `main`: each with its name, its parameters as
they are written, and its results. They find a type for every parameter, results
for every function, and an error among them. -/
theorem goFunctions_of_headers {lead : Text} {us : List (GoSignature × Text)}
    (hlead : lead.mentions "func" = false)
    (hus : ∀ u ∈ us, u.2.mentions "func" = false) :
    Check.goFunctions (lead ++ laidOut us) =
      ((us.map Prod.fst).filter (·.name ≠ "main".toList)).map declared ∧
    Target.go.fires? "typed_params" (lead ++ laidOut us) = some false ∧
    Target.go.fires? "return_type" (lead ++ laidOut us) = some false ∧
    Target.go.fires? "error_result" (lead ++ laidOut us) = some false := by
  have hread := goFunctions_laidOut hlead hus
  have hmem : ∀ f ∈ Check.goFunctions (lead ++ laidOut us), ∃ u ∈ us, f =
      u.1.declared := by
    intro f hf
    rw [hread] at hf
    obtain ⟨s, hs, rfl⟩ := List.mem_map.mp hf
    obtain ⟨u, hu, rfl⟩ := List.mem_map.mp (List.mem_of_mem_filter hs)
    exact ⟨u, hu, rfl⟩
  refine ⟨hread, congrArg some ?_, congrArg some ?_, congrArg some ?_⟩
  · show (Check.goFunctions _).any _ = false
    rw [List.any_eq_false]
    intro f hf
    obtain ⟨u, -, rfl⟩ := hmem f hf
    rw [List.any_eq_true]
    rintro ⟨p, hp, huntyped⟩
    rcases words_of_mem_fields hp with rfl | ⟨q, -, hq⟩
    · exact absurd huntyped (by decide)
    · simp [hq] at huntyped
  · show (Check.goFunctions _).any _ = false
    rw [List.any_eq_false]
    intro f hf
    obtain ⟨u, -, rfl⟩ := hmem f hf
    show ¬ results.isEmpty = true
    decide
  · show (!(Check.goFunctions _).isEmpty &&
      !(lead ++ laidOut us).mentions "error") = false
    cases hfs : Check.goFunctions (lead ++ laidOut us) with
    | nil => rfl
    | cons f fs =>
        obtain ⟨u, hu, -⟩ := hmem f (hfs ▸ List.mem_cons_self)
        rw [mentions_error hu]
        rfl

/-- Two functions around `main`, one of them with braces in a type. -/
theorem goFunctions_of_headers_main :
    let scale := flush "scale" [("xs", .array), ("k", .float)]
      (by decide) (by decide)
    let entry := flush "main" [] (by decide) (by decide)
    let gather := flush "gather" [("items", .list)] (by decide) (by decide)
    let text : Text := "package main\n\n" ++
      laidOut [(scale, "\n    return xs, xs, nil\n\x7d\n\n"),
        (entry, "\n\x7d\n"), (gather, "\n\x7d\nfun")]
    Check.goFunctions text =
      [⟨"scale", "xs []float64, k float64", results⟩,
       ⟨"gather", "items []interface\x7b\x7d", results⟩] ∧
    Target.go.fires? "typed_params" text = some false := by
  intro scale entry gather text
  have hlead : Text.mentions "package main\n\n" "func" = false := by decide
  have hbodies : ∀ u ∈ [(scale, ("\n    return xs, xs, nil\n\x7d\n\n" : Text)),
      (entry, "\n\x7d\n"),
      (gather, "\n\x7d\nfun")], Text.mentions u.2 "func" = false := by decide
  obtain ⟨hfunctions, htyped, -⟩ := goFunctions_of_headers hlead hbodies
  exact ⟨hfunctions.trans (by decide), htyped⟩

end GoSignature

end Recast
