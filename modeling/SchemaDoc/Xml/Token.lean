import SchemaDoc.Xml.Reference

/-!
# The tokens of a document

A document is read as a sequence of tokens: the parts of tags, texts, comments and instructions.
Which of them may come next depends on a mode alone, the number of open elements included, so that
`step` reads one token and says in which mode to go on. Each token takes at least one character
(`length_lt_of_step`), which is why `scanFrom` ends. It does not look at whether tags match or
prefixes are known; that is for the tree that is built from the tokens.
-/
namespace SchemaDoc.Xml

open Text (strip? eq_append_of_strip?)

inductive Token
  /-- The opening bracket of a start tag with the name after it, marked at the name. -/
  | startTag (name : QName) (mark : Mark)
  | assignment (name : QName) (value : String) (mark : Mark)
  | startTagEnd (isEmpty : Bool)
  | endTag (name : QName) (mark : Mark)
  | text (content : String)
  | comment (content : String)
  | instruction (target content : String)
  deriving DecidableEq, Repr

inductive Mode
  /-- The root element has not begun. -/
  | outset
  /-- Inside a start tag, under `depth` open elements. -/
  | tag (depth : Nat)
  /-- Inside the content of the innermost of `depth` open elements. With none, the root element has
  been closed. -/
  | content (depth : Nat)
  deriving DecidableEq, Repr

namespace Scan

def quote : Scan Char
  | [] => .error ⟨.endOfText, []⟩
  | c :: r => if c = '\'' ∨ c = '"' then .ok (c, r) else .error ⟨.expectedKind "a quote" c, c :: r⟩

/-- Takes a name, an equals sign and a value in quotes. The value comes as it is written, with the
mark of its end. -/
def assigned : Scan (QName × List Char × Mark) := do
  let name ← qualifiedName
  spaces
  char '='
  spaces
  let q ← quote
  let raw ← run fun s => s.head? == some q || s.head? == some '<'
  let stop ← mark
  char q
  return (name, raw, stop)

/-- Resolves the references of `raw`, which ends at `stop`. -/
def resolved (join : List Piece → List Char) (raw : List Char) (stop : Mark) :
    Scan String := fun s =>
  match pieces raw with
  | .ok ps => .ok (String.ofList (join ps), s)
  | .error f => .error ⟨f.cause, f.place ++ stop⟩

def assignment : Scan Token := do
  let start ← mark
  let (name, raw, stop) ← assigned
  let value ← resolved joinValue raw stop
  return .assignment name value start

def startTag : Scan Token := do
  let start ← mark
  let name ← qualifiedName
  return .startTag name start

def endTag (start : Mark) : Scan Token := do
  let name ← qualifiedName
  spaces
  char '>'
  return .endTag name start

def text : Scan Token := do
  let raw ← run fun s => s.head? == some '<'
  let stop ← mark
  if holds "]]>".toList raw then fail .sectionEndInText stop
  else
    let content ← resolved joinText raw stop
    return .text content

def cdata : Scan Token := do
  let raw ← run (beginsWith "]]>")
  word "]]>"
  return .text (String.ofList (joinText (raw.map .plain)))

/-- Takes the content and the end of the comment that begins at `start`. The first hyphen of its end
counts when two hyphens are looked for. -/
def comment (start : Mark) : Scan Token := do
  let content ← run (beginsWith "-->")
  word "-->"
  if holds "--".toList (content ++ ['-']) then fail .hyphensInComment start
  else return .comment (String.ofList content)

/-- Takes the rest of the instruction that begins at `start`. -/
def instruction (start : Mark) : Scan Token :=
  if beginsWith "<?xml " start then fail .misplacedDeclaration start
  else do
    let target ← name
    spaces
    let content ← run (beginsWith "?>")
    word "?>"
    return .instruction (String.ofList target) (String.ofList content)

/-- Spaces, unless the declaration or the text ends here. -/
def declarationGap : Scan Unit := fun s =>
  match s with
  | [] => .ok ((), [])
  | c :: _ =>
    if isSpace c || beginsWith "?>" s then .ok ((), s.dropWhile isSpace)
    else .error ⟨.expectedKind "a whitespace" c, s⟩

def ifBegins (key : String) (p : Scan Unit) : Scan Unit := fun s =>
  if beginsWith key s then p s else .ok ((), s)

/-- Takes a part of a declaration. Its value is not looked at. -/
def declared : Scan Unit := do
  let _ ← assigned
  return ()

/-- Takes the declaration whose opening has been read. -/
def declaration : Scan Unit := do
  spaces
  let here ← mark
  if beginsWith "version" here then
    declared
    declarationGap
    ifBegins "encoding" (do declared; declarationGap)
    ifBegins "standalone" declared
    spaces
    word "?>"
  else word "version"

/-- Takes a byte-order mark and a declaration from the start of a text, if they are there. -/
def preamble : Scan Unit := fun s =>
  let s := (strip? ['\uFEFF'] s).getD s
  match strip? "<?xml ".toList s with
  | some r => declaration r
  | none => .ok ((), s)

/-- The comment or the instruction that begins here, and what follows its opening. -/
def aside? (s : List Char) : Option (Scan Token × List Char) :=
  match strip? "<!--".toList s with
  | some r => some (comment s, r)
  | none => (strip? "<?".toList s).map (instruction s, ·)

/-- Reads a token and goes on in the mode `next`. -/
def emit (p : Scan Token) (next : Mode) : Scan (Option (Token × Mode)) := fun s =>
  (p s).map fun x => (some (x.1, next), x.2)

def stepOutset : Scan (Option (Token × Mode)) := fun s =>
  let s := s.dropWhile isSpace
  match aside? s with
  | some (p, r) => emit p .outset r
  | none =>
    if beginsWith "<!DOCTYPE" s then .error ⟨.doctype, s⟩
    else match s with
      | [] => .ok (none, [])
      | '<' :: r => emit startTag (.tag 0) r
      | _ => .error ⟨.unknownToken, s⟩

def stepEpilogue : Scan (Option (Token × Mode)) := fun s =>
  let s := s.dropWhile isSpace
  match aside? s with
  | some (p, r) => emit p (.content 0) r
  | none => if s.isEmpty then .ok (none, []) else .error ⟨.unknownToken, s⟩

def stepTag (depth : Nat) : Scan (Option (Token × Mode)) := fun s =>
  match s, s.dropWhile isSpace with
  | [], _ => .ok (none, [])
  | _, [] => .error ⟨.endOfText, []⟩
  | _, '/' :: r => (char '>' r).map fun x => (some (.startTagEnd true, .content depth), x.2)
  | _, '>' :: r => .ok (some (.startTagEnd false, .content (depth + 1)), r)
  | c :: _, d :: r =>
    if isSpace c then emit assignment (.tag depth) (d :: r)
    else .error ⟨.expectedKind "a whitespace" d, d :: r⟩

/-- The next token in the content of an element that has `depth` elements around it. -/
def stepContent (depth : Nat) : Scan (Option (Token × Mode)) := fun s =>
  match aside? s with
  | some (p, r) => emit p (.content (depth + 1)) r
  | none =>
    match strip? "<![CDATA[".toList s with
    | some r => emit cdata (.content (depth + 1)) r
    | none =>
      match s with
      | [] => .ok (none, [])
      | ['<'] => .error ⟨.unknownToken, s⟩
      | '<' :: '!' :: _ => .error ⟨.unknownToken, s⟩
      | '<' :: '/' :: r => emit (endTag s) (.content depth) r
      | '<' :: r => emit startTag (.tag (depth + 1)) r
      | _ => emit text (.content (depth + 1)) s

/-- Reads one token, or nothing where the text may end. -/
def step : Mode → Scan (Option (Token × Mode))
  | .outset => stepOutset
  | .tag depth => stepTag depth
  | .content 0 => stepEpilogue
  | .content (depth + 1) => stepContent depth

theorem reads_quote : Reads quote := by
  intro s a r h
  unfold quote at h
  split at h
  next => cases h
  next c t => split at h <;> cases h; exact List.suffix_cons _ _

theorem reads_assigned : Reads assigned :=
  reads_bind reads_qualifiedName fun _ => reads_bind reads_spaces fun _ =>
    reads_bind (reads_char _) fun _ => reads_bind reads_spaces fun _ =>
    reads_bind reads_quote fun _ => reads_bind (reads_run _) fun _ =>
    reads_bind reads_mark fun _ => reads_bind (reads_char _) fun _ => reads_pure _

theorem reads_resolved (join : List Piece → List Char) (raw : List Char) (stop : Mark) :
    Reads (resolved join raw stop) := by
  intro s a r h
  unfold resolved at h
  split at h <;> cases h
  exact List.suffix_rfl

theorem reads_assignment : Reads assignment :=
  reads_bind reads_mark fun _ => reads_bind reads_assigned fun _ =>
    reads_bind (reads_resolved _ _ _) fun _ => reads_pure _

theorem reads_startTag : Reads startTag :=
  reads_bind reads_mark fun _ => reads_bind reads_qualifiedName fun _ => reads_pure _

theorem reads_endTag (start : Mark) : Reads (endTag start) :=
  reads_bind reads_qualifiedName fun _ => reads_bind reads_spaces fun _ =>
    reads_bind (reads_char _) fun _ => reads_pure _

theorem reads_ite {α : Type} {c : Prop} [Decidable c] {p q : Scan α} (hp : Reads p) (hq : Reads q) :
    Reads (if c then p else q) := by
  split
  · exact hp
  · exact hq

theorem reads_text : Reads text :=
  reads_bind (reads_run _) fun _ => reads_bind reads_mark fun _ => reads_ite (reads_fail _ _)
    (reads_bind (reads_resolved _ _ _) fun _ => reads_pure _)

theorem reads_cdata : Reads cdata :=
  reads_bind (reads_run _) fun _ => reads_bind (reads_word _) fun _ => reads_pure _

theorem reads_comment (start : Mark) : Reads (comment start) :=
  reads_bind (reads_run _) fun _ => reads_bind (reads_word _) fun _ =>
    reads_ite (reads_fail _ _) (reads_pure _)

theorem reads_instruction (start : Mark) : Reads (instruction start) :=
  reads_ite (reads_fail _ _) (reads_bind reads_name fun _ => reads_bind reads_spaces fun _ =>
    reads_bind (reads_run _) fun _ => reads_bind (reads_word _) fun _ => reads_pure _)

theorem advances_assignment : Advances assignment :=
  advances_bind_of_reads reads_mark fun _ => advances_bind
    (advances_bind advances_qualifiedName fun _ => reads_bind reads_spaces fun _ =>
      reads_bind (reads_char _) fun _ => reads_bind reads_spaces fun _ =>
      reads_bind reads_quote fun _ => reads_bind (reads_run _) fun _ =>
      reads_bind reads_mark fun _ => reads_bind (reads_char _) fun _ => reads_pure _)
    fun _ => reads_bind (reads_resolved _ _ _) fun _ => reads_pure _

theorem emit_eq_ok {p : Scan Token} {next : Mode} {s r : List Char} {x : Token × Mode}
    (h : emit p next s = .ok (some x, r)) : p s = .ok (x.1, r) ∧ x.2 = next := by
  unfold emit at h
  cases hp : p s with
  | error f => rw [hp] at h; cases h
  | ok y => rw [hp] at h; cases h; exact ⟨rfl, rfl⟩

theorem length_lt_of_aside? {s r r' : List Char} {p : Scan Token} {next : Mode} {x : Token × Mode}
    (ha : aside? s = some (p, r)) (h : emit p next r = .ok (some x, r')) :
    r'.length < s.length := by
  unfold aside? at ha
  split at ha
  next t ht =>
    cases ha
    have := (reads_comment s (emit_eq_ok h).1).length_le
    rw [eq_append_of_strip? ht, List.length_append]
    exact Nat.lt_of_le_of_lt this (by simp)
  next =>
    obtain ⟨t, ht, heq⟩ := Option.map_eq_some_iff.mp ha
    cases heq
    have := (reads_instruction s (emit_eq_ok h).1).length_le
    rw [eq_append_of_strip? ht, List.length_append]
    exact Nat.lt_of_le_of_lt this (by simp)

theorem length_lt_of_step {mode : Mode} {s r : List Char} {x : Token × Mode}
    (h : step mode s = .ok (some x, r)) : r.length < s.length := by
  cases mode with
  | outset =>
    simp only [step, stepOutset] at h
    have less := (List.dropWhile_suffix isSpace (l := s)).length_le
    generalize s.dropWhile isSpace = t at h less
    refine Nat.lt_of_lt_of_le ?_ less
    split at h
    next ha => exact length_lt_of_aside? ha h
    next =>
      split at h
      next => cases h
      next =>
        split at h
        next => cases h
        next u => exact Nat.lt_succ_of_le (reads_startTag (emit_eq_ok h).1).length_le
        next => cases h
  | tag depth =>
    simp only [step, stepTag] at h
    have less := (List.dropWhile_suffix isSpace (l := s)).length_le
    generalize s.dropWhile isSpace = t at h less
    refine Nat.lt_of_lt_of_le ?_ less
    split at h
    next => cases h
    next => cases h
    next u _ =>
      cases hc : char '>' u with
      | error f => rw [hc] at h; cases h
      | ok y =>
        rw [hc] at h
        cases h
        exact Nat.lt_succ_of_le (reads_char '>' (a := ()) hc).length_le
    next => cases h; simp
    next =>
      split at h
      next => exact advances_assignment (emit_eq_ok h).1
      next => cases h
  | content depth =>
    cases depth with
    | zero =>
      simp only [step, stepEpilogue] at h
      have less := (List.dropWhile_suffix isSpace (l := s)).length_le
      generalize s.dropWhile isSpace = t at h less
      refine Nat.lt_of_lt_of_le ?_ less
      split at h
      next ha => exact length_lt_of_aside? ha h
      next => split at h <;> cases h
    | succ depth =>
      simp only [step, stepContent] at h
      split at h
      next ha => exact length_lt_of_aside? ha h
      next =>
        split at h
        next t ht =>
          rw [eq_append_of_strip? ht, List.length_append]
          exact Nat.lt_of_le_of_lt (reads_cdata (emit_eq_ok h).1).length_le (by simp)
        next =>
          split at h
          next => cases h
          next => cases h
          next => cases h
          next t _ _ =>
            exact Nat.lt_succ_of_lt (Nat.lt_succ_of_le (reads_endTag _ (emit_eq_ok h).1).length_le)
          next => exact Nat.lt_succ_of_le (reads_startTag (emit_eq_ok h).1).length_le
          next hnil _ _ _ hopen =>
            cases s with
            | nil => exact absurd rfl hnil
            | cons c t =>
              have hc : c ≠ '<' := fun e => hopen t (by rw [e])
              obtain ⟨raw, r', hrun, hr'⟩ :
                ∃ raw r', run (fun s => s.head? == some '<') (c :: t) = .ok (raw, r') ∧
                  r <:+ r' := by
                have ht := (emit_eq_ok h).1
                simp only [text, bind, StateT.bind, Except.bind] at ht
                split at ht
                next => cases ht
                next y hy =>
                  refine ⟨y.1, y.2, hy, ?_⟩
                  have tail : Reads (do
                      let stop ← mark
                      if holds "]]>".toList y.1 then fail .sectionEndInText stop
                      else
                        let content ← resolved joinText y.1 stop
                        return Token.text content) :=
                    reads_bind reads_mark fun _ => reads_ite (reads_fail _ _)
                      (reads_bind (reads_resolved _ _ _) fun _ => reads_pure _)
                  exact tail ht
              exact Nat.lt_of_le_of_lt hr'.length_le (length_lt_of_run (by simp [hc]) hrun)

end Scan

/-- The tokens of a text and the fault that they end with, if there is one. -/
structure Scanned where
  tokens : List Token
  fault? : Option (Fault Mark)
  deriving DecidableEq, Repr

/-- Reads tokens from `s` on, in a mode. -/
def scanFrom (mode : Mode) (s : List Char) : Scanned :=
  match _ : Scan.step mode s with
  | .error f => ⟨[], some f⟩
  | .ok (none, _) => ⟨[], none⟩
  | .ok (some (token, next), rest) =>
    let more := scanFrom next rest
    ⟨token :: more.tokens, more.fault?⟩
termination_by s.length
decreasing_by exact Scan.length_lt_of_step ‹_›

theorem scanFrom_of_step {mode next : Mode} {s rest : List Char} {token : Token}
    (h : Scan.step mode s = .ok (some (token, next), rest)) :
    scanFrom mode s = ⟨token :: (scanFrom next rest).tokens, (scanFrom next rest).fault?⟩ := by
  rw [scanFrom]
  split
  next he => rw [h] at he; cases he
  next he => rw [h] at he; cases he
  next he => rw [h] at he; cases he; rfl

theorem scanFrom_of_stop {mode : Mode} {s rest : List Char}
    (h : Scan.step mode s = .ok (none, rest)) : scanFrom mode s = ⟨[], none⟩ := by
  rw [scanFrom]
  split
  next he => rw [h] at he; cases he
  next => rfl
  next he => rw [h] at he; cases he

theorem scanFrom_of_fault {mode : Mode} {s : List Char} {f : Fault Mark}
    (h : Scan.step mode s = .error f) : scanFrom mode s = ⟨[], some f⟩ := by
  rw [scanFrom]
  split
  next he => rw [h] at he; cases he; rfl
  next he => rw [h] at he; cases he
  next he => rw [h] at he; cases he

def scan (text : List Char) : Scanned :=
  match Scan.preamble text with
  | .error f => ⟨[], some f⟩
  | .ok (_, rest) => scanFrom .outset rest

end SchemaDoc.Xml
