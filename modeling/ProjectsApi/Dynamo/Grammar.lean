import ProjectsApi.Dynamo.Table

/-!
# The texts of expressions

A request carries its expressions as texts.  They are cut into tokens and read as the
assignments of an update or as a condition; only the operators in use by clients of this model
are covered.  What a client writes by joining assignments is read back as these assignments
(`parseUpdate_joined`).
-/

namespace Dynamo

open Foundation

/-! ## Tokens -/

inductive Token where
  | word (text : String)
  | comma
  | equals
  | opening
  | closing
  deriving DecidableEq

/-- The token of a character that stands for itself. -/
def punctuation : Char → Option Token
  | ',' => some .comma
  | '=' => some .equals
  | '(' => some .opening
  | ')' => some .closing
  | _ => none

/-- A character of a word. -/
def isWordChar (c : Char) : Bool := (punctuation c).isNone && !c.isWhitespace

/-- The word that ends here, if one was begun. -/
def endWord (word : List Char) : List Token :=
  if word.isEmpty then [] else [.word (String.ofList word)]

/-- The tokens of a text behind the characters `word` of a word. -/
def tokens (word : List Char) : List Char → List Token
  | [] => endWord word
  | c :: cs =>
      match punctuation c with
      | some token => endWord word ++ token :: tokens [] cs
      | none => if c.isWhitespace then endWord word ++ tokens [] cs else tokens (word ++ [c]) cs

/-- A text that is one word. -/
structure IsWord (w : String) : Prop where
  ne_empty : w ≠ ""
  all_isWordChar : w.toList.all isWordChar = true

theorem endWord_toList {w : String} (h : IsWord w) : endWord w.toList = [.word w] := by
  have hne : w.toList ≠ [] := fun hnil => h.ne_empty (String.toList_eq_nil_iff.mp hnil)
  simp [endWord, hne]

theorem tokens_append_word {w : List Char} (hw : w.all isWordChar = true)
    (word cs : List Char) : tokens word (w ++ cs) = tokens (word ++ w) cs := by
  induction w generalizing word with
  | nil => simp
  | cons c w ih =>
      rw [List.all_cons, Bool.and_eq_true] at hw
      obtain ⟨hc, hw⟩ := hw
      rw [isWordChar, Bool.and_eq_true, Option.isNone_iff_eq_none, Bool.not_eq_true'] at hc
      rw [List.cons_append, tokens, hc.1]
      dsimp only
      rw [hc.2, if_neg (by decide), ih hw, List.append_assoc]
      rfl

/-- A word at the front of a text that goes on with another character. -/
theorem tokens_word_cons {w : String} (hw : IsWord w) {c : Char} (hc : isWordChar c = false)
    (cs : List Char) : tokens [] (w.toList ++ c :: cs) = .word w :: tokens [] (c :: cs) := by
  rw [tokens_append_word hw.all_isWordChar, List.nil_append, tokens, tokens, endWord_toList hw]
  cases hp : punctuation c with
  | some token => rfl
  | none =>
      have hspace : c.isWhitespace = true := by simpa [isWordChar, hp] using hc
      simp [hspace, endWord]

theorem tokens_word {w : String} (hw : IsWord w) : tokens [] w.toList = [.word w] := by
  have happend := tokens_append_word hw.all_isWordChar [] []
  rw [List.append_nil, List.nil_append] at happend
  rw [happend, tokens, endWord_toList hw]

@[simp] theorem tokens_space_cons (cs : List Char) : tokens [] (' ' :: cs) = tokens [] cs := rfl

@[simp] theorem tokens_comma_cons (cs : List Char) :
    tokens [] (',' :: cs) = .comma :: tokens [] cs := rfl

@[simp] theorem tokens_equals_cons (cs : List Char) :
    tokens [] ('=' :: cs) = .equals :: tokens [] cs := rfl

/-! ## Reading -/

/-- A value placeholder. -/
def isPlaceholder (word : String) : Bool := word.toList.head? == some ':'

/-- An assignment, or the equality of the two. -/
def operands? (path operand : String) : Option (String × String) :=
  if !isPlaceholder path && isPlaceholder operand then some (path, operand) else none

/-- `path = operand, ...` -/
def parseAssignments : List Token → Option (List (String × String))
  | [.word path, .equals, .word operand] => (operands? path operand).map fun u => [u]
  | .word path :: .equals :: .word operand :: .comma :: rest => do
      let update ← operands? path operand
      let updates ← parseAssignments rest
      return update :: updates
  | _ => none

/-- `SET path = operand, ...` -/
def parseUpdate (text : String) : Option (List (String × String)) :=
  match tokens [] text.toList with
  | .word "SET" :: rest => parseAssignments rest
  | _ => none

/-- A function of a path. -/
def function? (name path : String) : Option Condition :=
  if name = "attribute_exists" then some (.attributeExists path)
  else if name = "attribute_not_exists" then some (.attributeNotExists path)
  else none

/-- Comparisons and functions, joined with `AND`. -/
def parseTerms : List Token → Option Condition
  | [.word path, .equals, .word operand] =>
      (operands? path operand).map fun u => .equals u.1 u.2
  | .word path :: .equals :: .word operand :: .word "AND" :: rest => do
      let u ← operands? path operand
      let condition ← parseTerms rest
      return .and (.equals u.1 u.2) condition
  | [.word name, .opening, .word path, .closing] => function? name path
  | .word name :: .opening :: .word path :: .closing :: .word "AND" :: rest => do
      let first ← function? name path
      let condition ← parseTerms rest
      return .and first condition
  | _ => none

def parseCondition (text : String) : Option Condition := parseTerms (tokens [] text.toList)

example : parseCondition "attribute_exists(PK) AND ownerId = :owner" =
    some (.and (.attributeExists "PK") (.equals "ownerId" ":owner")) := by decide

/-! ## Reading what was joined -/

/-- The parts of an assignment are words, of which the second is a placeholder. -/
structure IsAssignment (update : String × String) : Prop where
  path_isWord : IsWord update.1
  operand_isWord : IsWord update.2
  path : isPlaceholder update.1 = false
  operand : isPlaceholder update.2 = true

/-- The text of an assignment. -/
def assignmentText (update : String × String) : String := update.1 ++ " = " ++ update.2

theorem operands?_eq {update : String × String} (h : IsAssignment update) :
    operands? update.1 update.2 = some update := by
  simp [operands?, h.path, h.operand]

/-- The tokens of an assignment, at the end or in front of a comma. -/
theorem tokens_assignment {update : String × String} (h : IsAssignment update) :
    tokens [] (assignmentText update).toList = [.word update.1, .equals, .word update.2] := by
  rw [assignmentText, String.toList_append, String.toList_append, List.append_assoc]
  change tokens [] (update.1.toList ++ ' ' :: '=' :: ' ' :: update.2.toList) = _
  rw [tokens_word_cons h.path_isWord rfl, tokens_space_cons, tokens_equals_cons,
    tokens_space_cons, tokens_word h.operand_isWord]

theorem tokens_assignment_comma {update : String × String} (h : IsAssignment update)
    (cs : List Char) :
    tokens [] ((assignmentText update).toList ++ ", ".toList ++ cs) =
      .word update.1 :: .equals :: .word update.2 :: .comma :: tokens [] cs := by
  rw [assignmentText, String.toList_append, String.toList_append]
  simp only [List.append_assoc]
  change tokens []
    (update.1.toList ++ ' ' :: '=' :: ' ' :: (update.2.toList ++ ',' :: ' ' :: cs)) = _
  rw [tokens_word_cons h.path_isWord rfl, tokens_space_cons, tokens_equals_cons,
    tokens_space_cons, tokens_word_cons h.operand_isWord rfl, tokens_comma_cons,
    tokens_space_cons]

theorem parseAssignments_joined {update : String × String} {updates : List (String × String)}
    (h : ∀ u ∈ update :: updates, IsAssignment u) :
    parseAssignments
        (tokens [] (", ".intercalate ((update :: updates).map assignmentText)).toList) =
      some (update :: updates) := by
  induction updates generalizing update with
  | nil =>
      have hupdate := h update List.mem_cons_self
      rw [List.map_singleton, String.intercalate_singleton, tokens_assignment hupdate,
        parseAssignments, operands?_eq hupdate]
      rfl
  | cons next updates ih =>
      obtain ⟨hupdate, hrest⟩ := List.forall_mem_cons.mp h
      rw [List.map_cons, List.map_cons, String.intercalate_cons_cons, String.toList_append,
        String.toList_append, tokens_assignment_comma hupdate, parseAssignments,
        operands?_eq hupdate, ← List.map_cons, ih hrest]
      rfl

/-- The joined assignments are read as they are, in their order. -/
theorem parseUpdate_joined {updates : List (String × String)} (hne : updates ≠ [])
    (h : ∀ u ∈ updates, IsAssignment u) :
    parseUpdate ("SET " ++ ", ".intercalate (updates.map assignmentText)) = some updates := by
  obtain ⟨update, updates, rfl⟩ := List.exists_cons_of_ne_nil hne
  have hset : IsWord "SET" := ⟨by decide, by decide⟩
  have htokens : ∀ cs, tokens [] ("SET ".toList ++ cs) = .word "SET" :: tokens [] cs :=
    fun cs => tokens_word_cons hset rfl cs
  rw [parseUpdate, String.toList_append, htokens]
  exact parseAssignments_joined h

/-! ## Requests -/

/-- The arguments of an `update_item` call. -/
structure UpdateItemArguments where
  key : Key
  updateExpression : String
  conditionExpression : String
  names : List (String × String)
  values : List (String × AttributeValue)

/-- The request that the service reads from the arguments. -/
def UpdateItemArguments.request? (arguments : UpdateItemArguments) : Option UpdateItemRequest := do
  let updates ← parseUpdate arguments.updateExpression
  let condition ← parseCondition arguments.conditionExpression
  return {
    key := arguments.key
    updates := updates
    condition := condition
    attributes := { names := arguments.names, values := arguments.values } }

/-- The item after the request, if the condition holds of it. -/
def UpdateItemRequest.update? (r : UpdateItemRequest) (item : Item) : Option Item :=
  if r.condition.holds r.attributes (some item) then some (r.apply (some item)) else none

end Dynamo
