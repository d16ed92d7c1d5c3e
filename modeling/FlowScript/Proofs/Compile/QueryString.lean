import FlowScript.Proofs.Compile.FilledEndpoint
import FlowScript.Proofs.Template.Content
import FlowScript.Proofs.Text.UpTo

/-! The query of a URL once its variables have values. It holds the keys as they are written, each
with the value of its own template, and can be read back from the URL. -/

namespace FlowScript

open Compile

namespace Url

def entryText (entry : String × String) : String :=
  entry.1 ++ "=" ++ entry.2

def queryText : List (String × String) → String
  | [] => ""
  | entries => "?" ++ "&".intercalate (entries.map entryText)

def readEntry (cs : List Char) : String × String :=
  (String.ofList (cs.takeWhile (· != '=')), String.ofList (cs.dropWhile (· != '=')).tail)

def readQuery (url : String) : List (String × String) :=
  match url.toList.dropWhile (· != '?') with
  | [] => []
  | _ :: query => (query.splitOn '&').map readEntry

theorem toList_entryText (entry : String × String) :
    (entryText entry).toList = entry.1.toList ++ '=' :: entry.2.toList := by
  simp [entryText]

theorem readEntry_entryText {entry : String × String} (hkey : '=' ∉ entry.1.toList) :
    readEntry (entryText entry).toList = entry := by
  have hstop : ∀ c ∈ ('=' :: entry.2.toList).head?, c = '=' := by simp
  rw [toList_entryText, readEntry, Text.takeWhile_ne_append hkey hstop,
    Text.dropWhile_ne_append hkey hstop, List.tail_cons, String.ofList_toList,
    String.ofList_toList]

theorem readQuery_append_queryText {path : String} {entries : List (String × String)}
    (hpath : '?' ∉ path.toList)
    (hkeys : ∀ entry ∈ entries, '&' ∉ entry.1.toList ∧ '=' ∉ entry.1.toList)
    (hvalues : ∀ entry ∈ entries, '&' ∉ entry.2.toList) :
    readQuery (path ++ queryText entries) = entries := by
  have hstop : ∀ c ∈ (queryText entries).toList.head?, c = '?' := by
    cases entries with
    | nil => simp [queryText]
    | cons entry rest => simp [queryText]
  unfold readQuery
  rw [String.toList_append, Text.dropWhile_ne_append hpath hstop]
  cases entries with
  | nil => rfl
  | cons entry rest =>
    have hquery : (queryText (entry :: rest)).toList =
        '?' :: ['&'].intercalate (((entry :: rest).map entryText).map String.toList) := by
      simp [queryText, String.toList_intercalate]
    have hapart : ∀ cs ∈ ((entry :: rest).map entryText).map String.toList, '&' ∉ cs := by
      intro cs hcs
      simp only [List.map_map, List.mem_map, Function.comp_apply] at hcs
      obtain ⟨other, hother, rfl⟩ := hcs
      rw [toList_entryText]
      have hkey := (hkeys other hother).1
      have hvalue := hvalues other hother
      simp [hkey, hvalue]
    rw [hquery]
    dsimp only
    rw [List.splitOn_intercalate '&' hapart (by simp), List.map_map, List.map_map]
    exact (List.map_congr_left fun other hother =>
      readEntry_entryText (hkeys other hother).2).trans (List.map_id _)

end Url

namespace Request

def queryEntries (request : Request) (values : String → String) : List (String × String) :=
  request.query.map fun pair => (pair.key, (Template.parse pair.value.plainText).eval values)

theorem eval_appendQuery (values : String → String) (pairs : List Pair) (separator : String)
    (url : Template) :
    (appendQuery pairs separator url).eval values = url.eval values ++
      if pairs = [] then "" else separator ++ "&".intercalate (pairs.map fun pair =>
        Url.entryText (pair.key, (Template.parse pair.value.plainText).eval values)) := by
  induction pairs generalizing separator url with
  | nil => simp [appendQuery]
  | cons pair rest ih =>
    rw [appendQuery, ih]
    cases rest with
    | nil => simp [Url.entryText, String.append_assoc]
    | cons next rest => simp [Url.entryText, String.append_assoc, String.intercalate_cons_cons]

theorem eval_urlTemplate (request : Request) (values : String → String) :
    request.urlTemplate.eval values =
      (Template.parse (Text.trimEnd '/' request.filled)).eval values ++
        Url.queryText (request.queryEntries values) := by
  rw [urlTemplate, eval_appendQuery, queryEntries]
  congr 1
  cases request.query with
  | nil => rfl
  | cons pair rest => simp [Url.queryText, List.map_map, Function.comp_def]

/-- The text of a URL is that of its path and, if there is a query, a question mark and the entries
in order: the keys as they are written, and the value of each by its own template. Unless the path
or an entry brings in a separator, the entries can be read back from it. -/
theorem url_query_reads_back {request : Request} {ref : StepRef} {settings : Settings}
    {session later : Session} {url : Template}
    (h : (request.url ref).runFrom settings session = (.ok url, later))
    (values : String → String) :
    url.eval values = (Template.parse (Text.trimEnd '/' request.filled)).eval values ++
      Url.queryText (request.queryEntries values) ∧
    ('?' ∉ ((Template.parse (Text.trimEnd '/' request.filled)).eval values).toList →
      (∀ entry ∈ request.queryEntries values, '&' ∉ entry.1.toList ∧ '=' ∉ entry.1.toList) →
      (∀ entry ∈ request.queryEntries values, '&' ∉ entry.2.toList) →
      Url.readQuery (url.eval values) = request.queryEntries values) := by
  have htext : url.eval values = _ :=
    (congrArg (Template.eval values) ((request.performs_url ref).eq_of_ok h)).trans
      (request.eval_urlTemplate values)
  refine ⟨htext, fun hpath hkeys hvalues => ?_⟩
  rw [htext]
  exact Url.readQuery_append_queryText hpath hkeys hvalues

end Request

def searchRequest : Request :=
  { requestOf "/shops/:shop/" "shop" "$team" with
    query := [⟨"$page", .string "a$b=?"⟩, ⟨"", .null⟩, ⟨"filter", .array [.string "$b"]⟩] }

theorem url_query_searchRequest :
    ∃ url later,
      (searchRequest.url (.precondition 0)).runFrom {} .start = (.ok url, later) ∧
      url.eval (fun _ => "x=1") = "/shops/x=1?$page=ax=1=?&=&filter=[\"x=1\"]" ∧
      Url.readQuery (url.eval fun _ => "x=1") =
        [("$page", "ax=1=?"), ("", ""), ("filter", "[\"x=1\"]")] := by
  obtain ⟨url, later, hrun⟩ := exists_runFrom_eq_ok
    (show ((searchRequest.url (.precondition 0)).runFrom {} .start).1.isOk by decide +kernel)
  obtain ⟨htext, hread⟩ := Request.url_query_reads_back hrun fun _ => "x=1"
  refine ⟨url, later, hrun, ?_, ?_⟩
  · rw [htext]
    decide +kernel
  · rw [hread (by decide +kernel) (by decide +kernel) (by decide +kernel)]
    decide +kernel

end FlowScript
