import Recast.Proofs.Json.Tokens

/-!
# Reading documents

The second pass puts a document together from its tokens. It keeps the lists and
records that are open, the innermost first, and what may come next; a value that
is complete goes into the innermost of them. What is written is read back,
character by character (`read?_render`), and it is written in ASCII
(`ascii_write`).
-/

namespace Recast

namespace Json

/-! ## The second pass -/

/-- A list or record that is open. -/
inductive Frame where
  | list (done : List Json)
  | record (done : List (Text × Json))
  /-- A record with a key that has no value yet. -/
  | field (done : List (Text × Json)) (key : Text)

/-- What comes next. -/
inductive Need where
  | value
  /-- A value, or the end of a list without any. -/
  | first
  | key
  /-- A key, or the end of a record without any. -/
  | firstKey
  | colon
  /-- The end of the innermost list or record, or a comma and more. -/
  | next

inductive State where
  | reading (frames : List Frame) (need : Need)
  | done (j : Json)

/-- A complete value is put where it belongs. -/
def put (j : Json) : List Frame → Option State
  | [] => some (.done j)
  | .list js :: fs => some (.reading (.list (js ++ [j]) :: fs) .next)
  | .field es k :: fs => some (.reading (.record (es ++ [(k, j)]) :: fs) .next)
  | .record _ :: _ => none

/-- The token with which a value starts. -/
def start? (fs : List Frame) : Token → Option State
  | .text t => put (.text t) fs
  | .number n => put (.number n) fs
  | .bool b => put (.bool b) fs
  | .openList => some (.reading (.list [] :: fs) .first)
  | .openRecord => some (.reading (.record [] :: fs) .firstKey)
  | _ => none

/-- The end of the innermost list or record. -/
def close? : List Frame → Token → Option State
  | .list js :: fs, .closeList => put (.list js) fs
  | .record es :: fs, .closeRecord => put (.record es) fs
  | _, _ => none

/-- The key of a field. -/
def key? : List Frame → Token → Option State
  | .record es :: fs, .text k => some (.reading (.field es k :: fs) .colon)
  | _, _ => none

/-- After a comma. -/
def more? : List Frame → Option State
  | .list js :: fs => some (.reading (.list js :: fs) .value)
  | .record es :: fs => some (.reading (.record es :: fs) .key)
  | _ => none

/-- One token more. -/
def State.step : State → Token → Option State
  | .done _, _ => none
  | .reading fs need, t =>
    match need with
    | .value => start? fs t
    | .first => if t = .closeList then close? fs t else start? fs t
    | .key => key? fs t
    | .firstKey => if t = .closeRecord then close? fs t else key? fs t
    | .colon => if t = .colon then some (.reading fs .value) else none
    | .next => if t = .comma then more? fs else close? fs t

/-- All tokens, one after the other. -/
def feed : State → List Token → Option State
  | s, [] => some s
  | s, t :: ts => (s.step t).bind (feed · ts)

/-- The one document that a text holds. -/
def read? (t : Text) : Option Json :=
  match (lex t).bind (feed (.reading [] .value)) with
  | some (.done j) => some j
  | _ => none

theorem feed_append (s : State) (ts us : List Token) :
    feed s (ts ++ us) = (feed s ts).bind (feed · us) := by
  induction ts generalizing s with
  | nil => rfl
  | cons t ts ih =>
      rw [List.cons_append, feed, feed]
      cases s.step t with
      | none => rfl
      | some s' => exact ih s'

theorem feed_singleton (s : State) (t : Token) : feed s [t] = s.step t :=
  Option.bind_fun_some (s.step t)

/-! ## Whole values -/

/-- Where a value may start, its tokens put it in its place. -/
def Feeds (j : Json) : Prop :=
  ∀ fs : List Frame, feed (.reading fs .value) (tokens j) = put j fs ∧
    feed (.reading fs .first) (tokens j) = put j fs

theorem feed_itemTokens {js : List Json} (h : ∀ j ∈ js, Feeds j)
    (done : List Json) (fs : List Frame) :
    feed (.reading (.list done :: fs) .next) (itemTokens js) =
      some (.reading (.list (done ++ js) :: fs) .next) := by
  induction js generalizing done with
  | nil => simp [itemTokens, feed]
  | cons j js ih =>
      obtain ⟨hj, hjs⟩ := List.forall_mem_cons.mp h
      show feed (.reading (.list done :: fs) .value) (tokens j ++
        itemTokens js) = _
      rw [feed_append, (hj _).1]
      show feed (.reading (.list (done ++ [j]) :: fs) .next) (itemTokens js) = _
      rw [ih hjs, List.append_assoc]
      rfl

theorem feed_fieldTokens {es : List (Text × Json)} (h : ∀ e ∈ es, Feeds e.2)
    (done : List (Text × Json)) (fs : List Frame) :
    feed (.reading (.record done :: fs) .next) (fieldTokens es) =
      some (.reading (.record (done ++ es) :: fs) .next) := by
  induction es generalizing done with
  | nil => simp [fieldTokens, feed]
  | cons e es ih =>
      obtain ⟨he, hes⟩ := List.forall_mem_cons.mp h
      show feed (.reading (.field done e.1 :: fs) .value) (tokens e.2 ++
        fieldTokens es) = _
      rw [feed_append, (he _).1]
      show feed (.reading (.record (done ++ [(e.1, e.2)]) :: fs) .next)
        (fieldTokens es) = _
      rw [ih hes, List.append_assoc]
      rfl

theorem feed_list {js : List Json} (h : ∀ j ∈ js, Feeds j) (fs : List Frame) :
    feed (.reading (.list [] :: fs) .first) (tokens (.list js)).tail =
      put (.list js) fs := by
  cases js with
  | nil => exact feed_singleton _ _
  | cons j js =>
      obtain ⟨hj, hjs⟩ := List.forall_mem_cons.mp h
      show feed (.reading (.list [] :: fs) .first) (tokens j ++
        (itemTokens js ++ [.closeList])) = _
      rw [feed_append, (hj _).2]
      show feed (.reading (.list [j] :: fs) .next) (itemTokens js ++
        [.closeList]) = _
      rw [feed_append, feed_itemTokens hjs]
      exact feed_singleton _ _

theorem feed_record {es : List (Text × Json)} (h : ∀ e ∈ es, Feeds e.2)
    (fs : List Frame) :
    feed (.reading (.record [] :: fs) .firstKey) (tokens (.record es)).tail =
      put (.record es) fs := by
  cases es with
  | nil => exact feed_singleton _ _
  | cons e es =>
      obtain ⟨he, hes⟩ := List.forall_mem_cons.mp h
      show feed (.reading (.field [] e.1 :: fs) .value) (tokens e.2 ++
        (fieldTokens es ++ [.closeRecord])) = _
      rw [feed_append, (he _).1]
      show feed (.reading (.record [(e.1, e.2)] :: fs) .next) (fieldTokens es ++
        [.closeRecord]) = _
      rw [feed_append, feed_fieldTokens hes]
      exact feed_singleton _ _

/-- The tokens of every document put it in its place. -/
theorem feeds (j : Json) : Feeds j := by
  induction j using induct with
  | text t => exact fun fs => ⟨feed_singleton _ _, feed_singleton _ _⟩
  | number n => exact fun fs => ⟨feed_singleton _ _, feed_singleton _ _⟩
  | bool b => exact fun fs => ⟨feed_singleton _ _, feed_singleton _ _⟩
  | list js ih =>
      intro fs
      have htokens : tokens (.list js) =
          .openList :: (tokens (.list js)).tail := by cases js <;> rfl
      rw [htokens]
      exact ⟨feed_list ih fs, feed_list ih fs⟩
  | record es ih =>
      intro fs
      have htokens : tokens (.record es) =
          .openRecord :: (tokens (.record es)).tail := by cases es <;> rfl
      rw [htokens]
      exact ⟨feed_record ih fs, feed_record ih fs⟩

/-- What is written on a line is read back. -/
theorem read?_render (j : Json) : read? (j.render ++ "\n") = some j := by
  rw [read?, lex_render_break, Option.bind_some, (feeds j []).1]
  rfl

/-! ## ASCII -/

/-- Every character of the text is in ASCII. -/
def Ascii (t : Text) : Prop := ∀ c ∈ t, c.toNat < 0x80

theorem Ascii.append {u v : Text} (hu : Ascii u) (hv : Ascii v) :
    Ascii (u ++ v) := by
  intro c hc
  rcases List.mem_append.mp hc with hc | hc
  · exact hu c hc
  · exact hv c hc

theorem ascii_of_all {t : Text}
    (h : t.all (fun c => decide (c.toNat < 0x80)) = true) : Ascii t := by
  intro c hc
  simpa using List.all_eq_true.mp h c hc

theorem ascii_digitChar : ∀ d < 16, (Nat.digitChar d).toNat < 0x80 := by decide

theorem ascii_hex (width n : Nat) : Ascii (Text.hex width n) := by
  induction width generalizing n with
  | zero => exact fun c hc => absurd hc List.not_mem_nil
  | succ width ih =>
      refine (ih (n / 16)).append ?_
      intro c hc
      rw [List.mem_singleton.mp hc]
      exact ascii_digitChar _ (Nat.mod_lt n (by decide))

theorem ascii_escapeUnit (n : Nat) : Ascii (escapeUnit n) :=
  (ascii_of_all (by decide)).append (ascii_hex 4 n)

theorem ascii_escape (c : Char) : Ascii (escape c) := by
  have hwritten := written_escape c
  generalize escape c = w at hwritten
  cases hwritten with
  | letter _ hd => simp [Ascii, hd]
  | plain _ _ _ hhigh =>
      intro d hd
      rw [List.mem_singleton.mp hd]
      omega
  | unit => exact ascii_escapeUnit _
  | pair => exact (ascii_escapeUnit _).append (ascii_escapeUnit _)

theorem ascii_quote (t : Text) : Ascii (quote t) := by
  refine ((ascii_of_all (by decide)).append ?_).append
    (ascii_of_all (by decide))
  intro c hc
  obtain ⟨d, -, hc⟩ := List.mem_flatMap.mp hc
  exact ascii_escape d c hc

theorem ascii_newline (level : Nat) : Ascii (newline level) := by
  intro c hc
  rcases List.mem_cons.mp hc with rfl | hc
  · decide
  · rw [List.eq_of_mem_replicate hc]
    decide

theorem ascii_ofNat (n : Nat) : Ascii (Text.ofNat n) := by
  intro c hc
  have hdigit : c.isDigit = true :=
    Nat.isDigit_of_mem_toDigits (by decide) (by decide) hc
  have hrange : c.toNat ≤ 57 := (Char.isDigit_iff_toNat.mp hdigit).2
  omega

theorem ascii_writeItems (level : Nat) {js : List Json}
    (h : ∀ j ∈ js, Ascii (write level j)) :
    Ascii (writeItems level js) := by
  induction js with
  | nil => exact fun c hc => absurd hc List.not_mem_nil
  | cons j js ih =>
      obtain ⟨hj, hjs⟩ := List.forall_mem_cons.mp h
      exact (((ascii_of_all (by decide)).append (ascii_newline level)).append
        hj).append (ih hjs)

theorem ascii_writeFields (level : Nat) {fs : List (Text × Json)}
    (h : ∀ f ∈ fs, Ascii (write level f.2)) :
    Ascii (writeFields level fs) := by
  induction fs with
  | nil => exact fun c hc => absurd hc List.not_mem_nil
  | cons f fs ih =>
      obtain ⟨hf, hfs⟩ := List.forall_mem_cons.mp h
      exact (((((ascii_of_all (by decide)).append (ascii_newline level)).append
        (ascii_quote f.1)).append
        (ascii_of_all (by decide))).append hf).append (ih hfs)

theorem ascii_write (level : Nat) (j : Json) : Ascii (write level j) := by
  induction j using induct generalizing level with
  | text t => exact ascii_quote t
  | number n => exact ascii_ofNat n
  | bool b => cases b <;> exact ascii_of_all rfl
  | list js ih =>
      cases js with
      | nil => exact ascii_of_all rfl
      | cons j js =>
          obtain ⟨hj, hjs⟩ := List.forall_mem_cons.mp ih
          have hitems := ascii_writeItems (level + 1) fun i hi =>
            hjs i hi (level + 1)
          exact (((((ascii_of_all (by decide)).append (ascii_newline _)).append
            (hj _)).append hitems).append
            (ascii_newline _)).append (ascii_of_all (by decide))
  | record fs ih =>
      cases fs with
      | nil => exact ascii_of_all rfl
      | cons f fs =>
          obtain ⟨hf, hfs⟩ := List.forall_mem_cons.mp ih
          have hfields := ascii_writeFields (level + 1) fun g hg =>
            hfs g hg (level + 1)
          exact (((((((ascii_of_all (by decide)).append
            (ascii_newline _)).append (ascii_quote f.1)).append
            (ascii_of_all (by decide))).append (hf _)).append hfields).append
            (ascii_newline _)).append (ascii_of_all (by decide))

end Json

end Recast
