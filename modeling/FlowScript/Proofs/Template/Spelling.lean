import FlowScript.Proofs.Template.Tokens

/-! Templates and their spellings. A template in normal form whose variables have names is what its own
spelling is read as. -/

namespace FlowScript

open Text

namespace Template

section Names

theorem ReadAs.isName {cs : List Char} {tokens : List Token} (h : ReadAs cs tokens) :
    ∀ name ∈ tokens.filterMap Token.name?, IsName name := by
  induction h with
  | nil => exact List.forall_mem_nil _
  | cons htoken _ ih =>
    cases htoken with
    | text => exact ih
    | escape => exact ih
    | name hname => exact List.forall_mem_cons.mpr ⟨hname, ih⟩
    | braced hname => exact List.forall_mem_cons.mpr ⟨hname, ih⟩
    | bare => exact ih

theorem isName_of_mem_placeholders {s name : String} (h : name ∈ placeholders s) : IsName name :=
  (readAs_scanChars s.toList).isName name h

end Names

section Spelling

def escaped (cs : List Char) : List Char :=
  cs.flatMap fun c => if c = '$' then ['$', '$'] else [c]

def spellingOf : Segment → List Char
  | .text s => escaped s.toList
  | .var name => '$' :: '\x7b' :: (name.toList ++ ['\x7d'])

/-- How a template is written: text is escaped, and every variable is a placeholder in braces. -/
def spelling (t : Template) : String :=
  String.ofList (t.segments.flatMap spellingOf)

def parseAfter (t : Template) (cs : List Char) : Template :=
  ofTokens "$" (Token.scanChars cs) t

theorem parseAfter_of_spelled {token : Token} {spelling behind : List Char}
    (h : token.Spelled spelling behind) (t : Template) :
    t.parseAfter (spelling ++ behind) = (ofTokens "$" [token] t).parseAfter behind := by
  unfold parseAfter
  rw [scanChars_of_spelled h]
  rfl

theorem parseAfter_cons {c : Char} (hc : c ≠ '$') (cs : List Char) (t : Template) :
    t.parseAfter (c :: cs) = (t.pushText (String.ofList [c])).parseAfter cs := by
  unfold parseAfter
  rw [Token.scanChars, if_neg hc]
  cases cs with
  | nil => rfl
  | cons d ds =>
    by_cases hd : d = '$'
    · rw [List.takeWhile_cons_of_neg (by simp [hd]), List.dropWhile_cons_of_neg (by simp [hd])]
      rfl
    · have hrun : t.pushText (String.ofList (c :: d :: ds.takeWhile (· != '$'))) =
          (t.pushText (String.ofList [c])).pushText
            (String.ofList (d :: ds.takeWhile (· != '$'))) := by
        rw [pushText_pushText, ← String.ofList_append, List.singleton_append]
      rw [List.takeWhile_cons_of_pos (by simpa using hd),
        List.dropWhile_cons_of_pos (by simpa using hd), Token.scanChars, if_neg hd]
      exact congrArg (ofTokens "$" _) hrun

theorem parseAfter_escaped (cs behind : List Char) (t : Template) :
    t.parseAfter (escaped cs ++ behind) = (t.pushText (String.ofList cs)).parseAfter behind := by
  induction cs generalizing t with
  | nil => exact congrArg (parseAfter · behind) (pushText_empty t).symm
  | cons c cs ih =>
    have hchar : t.parseAfter (escaped (c :: cs) ++ behind) =
        (t.pushText (String.ofList [c])).parseAfter (escaped cs ++ behind) := by
      by_cases hc : c = '$'
      · subst hc
        exact parseAfter_of_spelled (.escape _) t
      · rw [escaped, List.flatMap_cons, if_neg hc]
        exact parseAfter_cons hc _ t
    rw [hchar, ih, pushText_pushText, ← String.ofList_append, List.singleton_append]

theorem parseAfter_spellingOf {segment : Segment}
    (hname : ∀ name, segment = .var name → IsName name) (behind : List Char) (t : Template) :
    t.parseAfter (spellingOf segment ++ behind) = (t.pushSegment segment).parseAfter behind := by
  cases segment with
  | text s =>
    rw [spellingOf, parseAfter_escaped, String.ofList_toList]
    rfl
  | var name => exact parseAfter_of_spelled (.braced (hname name rfl) behind) t

theorem parseAfter_segments {segments : List Segment}
    (hnames : ∀ name, .var name ∈ segments → IsName name) (t : Template) :
    t.parseAfter (segments.flatMap spellingOf) = segments.foldl pushSegment t := by
  induction segments generalizing t with
  | nil =>
    rw [List.flatMap_nil, parseAfter, Token.scanChars]
    rfl
  | cons segment rest ih =>
    have hfirst (name : String) (heq : segment = .var name) : IsName name :=
      hnames name (heq ▸ List.mem_cons_self)
    rw [List.flatMap_cons, parseAfter_spellingOf hfirst, List.foldl_cons,
      ih fun name hname => hnames name (List.mem_cons_of_mem _ hname)]

theorem mem_varNames_iff {t : Template} {name : String} :
    name ∈ t.varNames ↔ .var name ∈ t.segments := by
  constructor
  · intro h
    obtain ⟨segment, hsegment, hname⟩ := List.mem_filterMap.mp h
    cases segment with
    | text s => cases hname
    | var other => exact Option.some.inj hname ▸ hsegment
  · exact fun h => List.mem_filterMap.mpr ⟨.var name, h, rfl⟩

end Spelling

/-- Whatever is done to a template, it is in normal form, and the variables that are read from a text
have names. Each template in normal form whose variables have names is read from its spelling. -/
theorem isNormal_and_parse_spelling :
    (∀ operations : List Operation, (operations.foldl Operation.apply empty).IsNormal) ∧
    (∀ s, ∀ name ∈ (parse s).varNames, IsName name) ∧
    ∀ t : Template, t.IsNormal → (∀ name ∈ t.varNames, IsName name) → parse t.spelling = t := by
  refine ⟨isNormal_empty.foldl_apply, fun s name hname => ?_, fun t hnormal hnames => ?_⟩
  · rw [varNames_parse] at hname
    exact isName_of_mem_placeholders hname
  · calc
      parse t.spelling = empty.parseAfter (t.segments.flatMap spellingOf) := by
        rw [parse, scan, spelling, String.toList_ofList, parseAfter]
      _ = t.segments.foldl pushSegment empty :=
        parseAfter_segments (fun name hname => hnames name (mem_varNames_iff.mpr hname)) empty
      _ = t := append_of_isNormal hnormal

def priceTemplate : Template :=
  ⟨[.text "in $", .var "currency", .text "\x7b5\x7d$", .var "unit"]⟩

theorem parse_spelling_priceTemplate :
    priceTemplate.IsNormal ∧ (∀ name ∈ priceTemplate.varNames, IsName name) ∧
      parse "in $$$\x7bcurrency\x7d\x7b5\x7d$$$\x7bunit\x7d" = priceTemplate := by
  have hnormal : priceTemplate.IsNormal :=
    ⟨by simp [priceTemplate], by simp [priceTemplate, Segment.isText]⟩
  have hnames : ∀ name ∈ priceTemplate.varNames, IsName name := by
    simp only [← isIdentifier_iff]
    decide
  exact ⟨hnormal, hnames, isNormal_and_parse_spelling.2.2 priceTemplate hnormal hnames⟩

end Template

end FlowScript
