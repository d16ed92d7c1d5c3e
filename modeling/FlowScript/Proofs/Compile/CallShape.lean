import FlowScript.Proofs.Compile.Reads

/-! The shape of the call that sends a request: which arguments it has, where its body goes, and
what the object of parameters holds. -/

namespace FlowScript

open Text

theorem Text.hasInfix_iff {part cs : List Char} : hasInfix part cs ↔ part <:+: cs := by
  induction cs with
  | nil => simp [hasInfix]
  | cons c cs ih =>
    rw [hasInfix, Bool.or_eq_true, ih, List.isPrefixOf_iff_prefix, List.infix_cons_iff]

theorem Method.hasBodyArgument_iff {method : Method} : method.hasBodyArgument ↔ method ≠ .get := by
  cases method <;> decide

/-- A header gives the content type, and its value names the type of forms, both in any case. -/
def Pair.DeclaresForm (header : Pair) : Prop :=
  lowerAscii header.key = "content-type" ∧
    ∃ before named behind, header.value.plainText.toList = before ++ named ++ behind ∧
      lowerAscii (String.ofList named) = "application/x-www-form-urlencoded"

namespace Request

/-- The body goes as a form, in the place of the call that only a GET request is without. -/
def SendsForm (request : Request) : Prop :=
  request.method ≠ .get ∧ ∃ header ∈ request.headers, header.DeclaresForm

/-- The body, unless it is empty, with one entry for each of its members. -/
def HasBody (request : Request) (body : Expr) : Prop :=
  ∃ members, request.body = some members ∧ members ≠ [] ∧
    body = .object (members.map fun member => (member.1, .str (.parse member.2.plainText)))

/-- The headers that are sent: that of a bearer token with data, and then those of the request. -/
inductive SendsHeaders (request : Request) : List (String × Expr) → Prop where
  | bearer {datum : AuthDatum} {others : List AuthDatum}
      (hauth : request.auth = some ⟨.bearer, datum :: others⟩) :
      SendsHeaders request
        (("Authorization", .str (.literal "Bearer " ++ .parse datum.value.plainText)) ::
          request.headers.map fun header => (header.key, .str (.parse header.value.plainText)))
  | own (hbearer : ∀ datum others, request.auth ≠ some ⟨.bearer, datum :: others⟩)
      (hne : request.headers ≠ []) :
      SendsHeaders request
        (request.headers.map fun header => (header.key, .str (.parse header.value.plainText)))

inductive Sends (request : Request) : String → Expr → Prop where
  | auth {kind : AuthKind} {data : List AuthDatum} (hauth : request.auth = some ⟨kind, data⟩)
      (hkind : kind ≠ .bearer) : Sends request "auth" (.text kind.name)
  | headers {entries : List (String × Expr)} (hheaders : request.SendsHeaders entries) :
      Sends request "headers" (.object entries)
  | cookies (hne : request.cookies ≠ []) :
      Sends request "cookies" (.object
        (request.cookies.map fun cookie => (cookie.key, .str (.parse cookie.value.plainText))))
  | body {body : Expr} (hbody : request.HasBody body) (hplace : ¬request.SendsForm) :
      Sends request "body" body
  | tags (hne : request.tags ≠ []) :
      Sends request "tags" (.object (request.tags.flatMap tagEntries))
  | timeout {seconds : Binary64} (htimeout : request.timeout = some seconds) :
      Sends request "timeout" (.text (secondsText seconds ++ "s"))

/-- The arguments of a call. In a GET request the object of parameters is the second of them, and in
any other the third, behind the body or a null. -/
inductive Arranged (method : Method) (url : Expr) :
    Option Expr → List (String × Expr) → List Expr → Prop where
  | url : Arranged method url none [] [url]
  | params {entries : List (String × Expr)} (hmethod : method = .get) (hne : entries ≠ []) :
      Arranged method url none entries [url, .object entries]
  | null {entries : List (String × Expr)} (hmethod : method ≠ .get) (hne : entries ≠ []) :
      Arranged method url none entries [url, .ident "null", .object entries]
  | body {entries : List (String × Expr)} (body : Expr) (hmethod : method ≠ .get)
      (hne : entries ≠ []) : Arranged method url (some body) entries [url, body, .object entries]

/-- The shape of a call, with the body in its place of the call, if it is there, and the entries of
the object of parameters. -/
structure Shapes (request : Request) (url : Expr) (positional : Option Expr)
    (entries : List (String × Expr)) (args : List Expr) : Prop where
  arranged : Arranged request.method url positional entries args
  positional_iff : ∀ body, positional = some body ↔ request.HasBody body ∧ request.SendsForm
  mem_iff : ∀ key value, (key, value) ∈ entries ↔ request.Sends key value
  keys : (entries.map Prod.fst).Sublist
    ["auth", "headers", "cookies", "body", "tags", "timeout"]

section Form

theorem declaresForm_iff {header : Pair} :
    (equalIgnoringCase header.key "content-type" &&
      contains (lowerAscii header.value.plainText) formType) ↔ header.DeclaresForm := by
  have hkey : equalIgnoringCase header.key "content-type" ↔
      lowerAscii header.key = "content-type" := by
    have hlower : lowerAscii "content-type" = "content-type" := by decide
    rw [equalIgnoringCase, hlower, beq_iff_eq]
  have hvalue : contains (lowerAscii header.value.plainText) formType ↔
      ∃ before named behind, header.value.plainText.toList = before ++ named ++ behind ∧
        lowerAscii (String.ofList named) = formType := by
    rw [contains, hasInfix_iff, lowerAscii, String.toList_ofList, List.infix_map_iff]
    constructor
    · rintro ⟨named, ⟨before, behind, hsplit⟩, hnamed⟩
      refine ⟨before, named, behind, hsplit.symm, ?_⟩
      rw [lowerAscii, String.toList_ofList, ← hnamed, String.ofList_toList]
    · rintro ⟨before, named, behind, hsplit, hnamed⟩
      refine ⟨named, ⟨before, behind, hsplit.symm⟩, ?_⟩
      rw [← hnamed, lowerAscii, String.toList_ofList, String.toList_ofList]
  rw [Bool.and_eq_true, hkey, hvalue]
  rfl

theorem hasPositionalBody_iff (request : Request) :
    request.hasPositionalBody ↔ request.SendsForm := by
  have hform : request.isFormEncoded ↔ ∃ header ∈ request.headers, header.DeclaresForm := by
    simp only [isFormEncoded, List.any_eq_true, declaresForm_iff]
  rw [hasPositionalBody, Bool.and_eq_true, hform, Method.hasBodyArgument_iff]
  exact and_comm

theorem bodyExpr?_eq_some_iff {request : Request} {body : Expr} :
    request.bodyExpr? = some body ↔ request.HasBody body := by
  unfold bodyExpr? HasBody
  cases request.body with
  | none => simp
  | some members => cases members <;> simp [valueEntry, eq_comm]

end Form

section Entries

theorem mem_objectEntry {key name : String} {entries : List (String × Expr)} {value : Expr} :
    (name, value) ∈ objectEntry key entries ↔
      name = key ∧ entries ≠ [] ∧ value = .object entries := by
  cases entries <;> simp [objectEntry]

theorem mem_authEntry {request : Request} {name : String} {value : Expr} :
    (name, value) ∈ request.authEntry ↔
      ∃ kind data, request.auth = some ⟨kind, data⟩ ∧ kind ≠ .bearer ∧
        name = "auth" ∧ value = .text kind.name := by
  unfold authEntry
  cases request.auth with
  | none => simp
  | some auth =>
    obtain ⟨kind, data⟩ := auth
    cases kind <;> simp [AuthKind.mode?]

theorem mem_toList_map_iff {key name : String} {source : Option Expr} {value : Expr} :
    (name, value) ∈ (source.map fun value => (key, value)).toList ↔
      name = key ∧ source = some value := by
  cases source <;> simp [eq_comm]

theorem mem_timeoutEntry {request : Request} {name : String} {value : Expr} :
    (name, value) ∈ request.timeoutEntry ↔
      ∃ seconds, request.timeout = some seconds ∧
        name = "timeout" ∧ value = .text (secondsText seconds ++ "s") := by
  unfold timeoutEntry
  cases request.timeout <;> simp

theorem bearer?_eq_none_iff {request : Request} :
    request.bearer? = none ↔
      ∀ datum others, request.auth ≠ some ⟨.bearer, datum :: others⟩ := by
  rw [Option.eq_none_iff_forall_ne_some]
  constructor
  · intro hnone datum others hauth
    exact hnone datum.value (bearer?_eq_some_iff.mpr ⟨datum, others, hauth, rfl⟩)
  · rintro hnone value hvalue
    obtain ⟨datum, others, hauth, -⟩ := bearer?_eq_some_iff.mp hvalue
    exact hnone datum others hauth

theorem sendsHeaders_iff {request : Request} {entries : List (String × Expr)} :
    request.SendsHeaders entries ↔
      request.bearerEntry ++ request.headers.map Pair.entry ≠ [] ∧
        entries = request.bearerEntry ++ request.headers.map Pair.entry := by
  unfold bearerEntry
  constructor
  · intro hheaders
    cases hheaders with
    | bearer hauth =>
      rw [bearer?_eq_some_iff.mpr ⟨_, _, hauth, rfl⟩]
      exact ⟨List.cons_ne_nil _ _, rfl⟩
    | own hbearer hne =>
      rw [bearer?_eq_none_iff.mpr hbearer]
      exact ⟨by simpa using hne, rfl⟩
  · rintro ⟨hne, rfl⟩
    cases hbearer : request.bearer? with
    | none =>
      rw [hbearer] at hne
      exact .own (bearer?_eq_none_iff.mp hbearer) (by simpa using hne)
    | some value =>
      obtain ⟨datum, others, hauth, rfl⟩ := bearer?_eq_some_iff.mp hbearer
      exact .bearer hauth

def sentEntries (request : Request) : List (String × Expr) :=
  request.paramEntries (if request.hasPositionalBody then none else request.bodyExpr?)

theorem mem_sentEntries_iff {request : Request} {name : String} {value : Expr} :
    (name, value) ∈ request.sentEntries ↔ request.Sends name value := by
  have hbody (body : Expr) :
      (if request.hasPositionalBody then none else request.bodyExpr?) = some body ↔
        request.HasBody body ∧ ¬request.SendsForm := by
    rw [← hasPositionalBody_iff, ← bodyExpr?_eq_some_iff]
    cases request.hasPositionalBody <;> simp
  have htags : request.tags.flatMap tagEntries ≠ [] ↔ request.tags ≠ [] := by
    cases request.tags <;> simp [tagEntries]
  simp only [sentEntries, paramEntries, List.mem_append, mem_authEntry, mem_objectEntry,
    mem_toList_map_iff, hbody, htags, mem_timeoutEntry]
  constructor
  · rintro (((((⟨kind, data, hauth, hkind, rfl, rfl⟩ | hheaders) | ⟨rfl, hne, rfl⟩) |
      ⟨rfl, hbody, hplace⟩) | ⟨rfl, hne, rfl⟩) | ⟨seconds, htimeout, rfl, rfl⟩)
    · exact .auth hauth hkind
    · obtain ⟨rfl, hne, rfl⟩ := hheaders
      exact .headers (sendsHeaders_iff.mpr ⟨hne, rfl⟩)
    · exact .cookies (by simpa using hne)
    · exact .body hbody hplace
    · exact .tags hne
    · exact .timeout htimeout
  · intro hsends
    cases hsends with
    | auth hauth hkind =>
      exact .inl (.inl (.inl (.inl (.inl ⟨_, _, hauth, hkind, rfl, rfl⟩))))
    | headers hheaders =>
      obtain ⟨hne, rfl⟩ := sendsHeaders_iff.mp hheaders
      exact .inl (.inl (.inl (.inl (.inr ⟨rfl, hne, rfl⟩))))
    | cookies hne => exact .inl (.inl (.inl (.inr ⟨rfl, by simpa using hne, rfl⟩)))
    | body hbody hplace => exact .inl (.inl (.inr ⟨rfl, hbody, hplace⟩))
    | tags hne => exact .inl (.inr ⟨rfl, hne, rfl⟩)
    | timeout htimeout => exact .inr ⟨_, htimeout, rfl, rfl⟩

theorem keys_sentEntries (request : Request) :
    (request.sentEntries.map Prod.fst).Sublist
      ["auth", "headers", "cookies", "body", "tags", "timeout"] := by
  have hobject (key : String) (entries : List (String × Expr)) :
      ((objectEntry key entries).map Prod.fst).Sublist [key] := by
    cases entries <;> simp [objectEntry]
  have hoption (key : String) (value : Option Expr) :
      ((value.map fun value => (key, value)).toList.map Prod.fst).Sublist [key] := by
    cases value <;> simp
  have hauth : (request.authEntry.map Prod.fst).Sublist ["auth"] := by
    unfold authEntry
    split <;> simp
  have htimeout : (request.timeoutEntry.map Prod.fst).Sublist ["timeout"] := by
    unfold timeoutEntry
    cases request.timeout <;> simp
  simp only [sentEntries, paramEntries, List.map_append]
  exact (((((hauth.append (hobject ..)).append (hobject ..)).append (hoption ..)).append
    (hobject ..)).append htimeout)

end Entries

theorem arranged_argumentList {method : Method} {url : Expr} {positional : Option Expr}
    {entries : List (String × Expr)}
    (h : positional.isSome → method ≠ .get ∧ entries ≠ []) :
    Arranged method url positional entries
      (url :: argumentList method.hasBodyArgument positional (objectArgument entries)) := by
  cases positional with
  | some body =>
    obtain ⟨hmethod, hne⟩ := h rfl
    obtain ⟨entry, rest, rfl⟩ := List.exists_cons_of_ne_nil hne
    rw [argumentList, Method.hasBodyArgument_iff.mpr hmethod]
    exact .body body hmethod hne
  | none =>
    cases entries with
    | nil => cases method <;> exact .url
    | cons entry rest =>
      have hne : entry :: rest ≠ [] := List.cons_ne_nil _ _
      by_cases hmethod : method = .get
      · subst hmethod
        exact .params rfl hne
      · have hbody := Method.hasBodyArgument_iff.mpr hmethod
        simp only [argumentList, hbody, objectArgument, if_true]
        exact .null hmethod hne

theorem shapes_arguments (request : Request) (url : Expr) :
    request.Shapes url (if request.hasPositionalBody then request.bodyExpr? else none)
      request.sentEntries (url :: request.arguments) where
  arranged := by
    rw [arguments_eq]
    apply arranged_argumentList
    intro hsome
    have hform : request.SendsForm := by
      rw [← hasPositionalBody_iff]
      by_contra hnot
      simp [hnot] at hsome
    obtain ⟨hmethod, header, hheader, -⟩ := hform
    refine ⟨hmethod, ?_⟩
    -- The header that declares the form is among the parameters.
    have hne : request.bearerEntry ++ request.headers.map Pair.entry ≠ [] := by
      apply List.append_ne_nil_of_right_ne_nil
      exact List.ne_nil_of_mem (List.mem_map_of_mem hheader)
    exact List.ne_nil_of_mem (mem_sentEntries_iff.mpr (.headers (sendsHeaders_iff.mpr ⟨hne, rfl⟩)))
  positional_iff body := by
    rw [← hasPositionalBody_iff, ← bodyExpr?_eq_some_iff]
    cases request.hasPositionalBody <;> simp
  mem_iff _ _ := mem_sentEntries_iff
  keys := request.keys_sentEntries

variable {request : Request} {ref : StepRef} {settings : Settings} {session later : Session}
  {stmt : Stmt}

theorem exists_url_of_compile
    (h : (request.compile ref).runFrom settings session = (.ok stmt, later)) :
    ∃ url, (request.url ref).runFrom settings session = (.ok url, later) ∧
      stmt = .const ref.resultVar
        (.call ("http." ++ request.method.lower) (.str url :: request.arguments)) := by
  rw [compile, Compile.runFrom_bind] at h
  generalize (request.url ref).runFrom settings session = run at h ⊢
  obtain ⟨error | url, after⟩ := run
  · cases h
  · simp only [Compile.runFrom_pure] at h
    cases h
    exact ⟨url, rfl, rfl⟩

/-- The call of a request has the URL first, then the body in its place if it goes as a form, and
then the object of parameters, which is left out when it would be empty. -/
theorem call_shapes
    (h : (request.compile ref).runFrom settings session = (.ok stmt, later)) :
    ∃ url positional entries args,
      (request.url ref).runFrom settings session = (.ok url, later) ∧
      stmt = .const ref.resultVar (.call ("http." ++ request.method.lower) args) ∧
      request.Shapes (.str url) positional entries args := by
  obtain ⟨url, hurl, hstmt⟩ := exists_url_of_compile h
  exact ⟨url, _, _, _, hurl, hstmt, request.shapes_arguments (.str url)⟩

def formRequest : Request where
  endpoint := "/login"
  method := .put
  auth := some ⟨.bearer, [⟨"token", .string "$token", none⟩]⟩
  headers := [⟨"Content-type", .string "Application/x-www-form-URLencoded; charset=utf-8"⟩]
  cookies := []
  params := []
  query := []
  body := some [("user", .string "$name"), ("user", .null)]
  tags := []
  timeout := none

theorem call_shapes_formRequest :
    ∃ stmt later url entries,
      (formRequest.compile (.precondition 0)).runFrom {} .start = (.ok stmt, later) ∧
      stmt = .const "req_0" (.call "http.put" [.str url,
        .object [("user", .str (.parse "$name")), ("user", .str (.parse ""))], .object entries]) ∧
      (∀ value, ("body", value) ∉ entries) ∧
      ("headers", .object [
        ("Authorization", .str (.literal "Bearer " ++ .parse "$token")),
        ("Content-type", .str (.parse "Application/x-www-form-URLencoded; charset=utf-8"))]) ∈
          entries := by
  have hok : ((formRequest.compile (.precondition 0)).runFrom {} .start).1.isOk := by
    decide +kernel
  obtain ⟨stmt, later, hrun⟩ := Compile.exists_runFrom_eq_ok hok
  obtain ⟨url, positional, entries, args, -, hstmt, hshapes⟩ := call_shapes hrun
  have hform : formRequest.SendsForm := hasPositionalBody_iff _ |>.mp (by decide +kernel)
  have hbody : positional = some (.object
      [("user", .str (.parse "$name")), ("user", .str (.parse ""))]) :=
    (hshapes.positional_iff _).mpr ⟨⟨_, rfl, List.cons_ne_nil _ _, rfl⟩, hform⟩
  have harranged := hshapes.arranged
  rw [hbody] at harranged
  refine ⟨stmt, later, url, entries, hrun, ?_, fun value hvalue => ?_, ?_⟩
  · rw [hstmt]
    cases harranged
    rfl
  · generalize hkey : "body" = key at hvalue
    cases (hshapes.mem_iff key value).mp hvalue with
    | body _ hplace => exact hplace hform
    | _ => exact absurd hkey (by decide)
  · have hheaders := @SendsHeaders.bearer formRequest ⟨"token", .string "$token", none⟩ [] rfl
    exact (hshapes.mem_iff _ _).mpr (.headers hheaders)

end Request

end FlowScript
