import FlowScript.Proofs.Template.NormalForm

/-! What a template holds, character by character. Where its segments begin and end is not part of
that, and a template in normal form has no choice in it. -/

namespace FlowScript.Template

/-- A character of a text, or a variable. -/
inductive Atom where
  | char (c : Char)
  | var (name : String)

/-- The characters of a text. None of them is a variable, whatever they spell. -/
def textAtoms (s : String) : List Atom :=
  s.toList.map .char

def segmentAtoms : Segment → List Atom
  | .text s => textAtoms s
  | .var name => [.var name]

def atoms (t : Template) : List Atom :=
  t.segments.flatMap segmentAtoms

section Operations

theorem textAtoms_append (u v : String) : textAtoms (u ++ v) = textAtoms u ++ textAtoms v := by
  unfold textAtoms
  rw [String.toList_append, List.map_append]

@[simp] theorem atoms_pushVar (t : Template) (name : String) :
    (t.pushVar name).atoms = t.atoms ++ [.var name] := by
  simp [atoms, pushVar, segmentAtoms]

@[simp] theorem atoms_pushText (t : Template) (s : String) :
    (t.pushText s).atoms = t.atoms ++ textAtoms s := by
  obtain ⟨segments⟩ := t
  unfold pushText atoms
  fun_induction appendText s segments with
  | case1 hs => simp [hs, textAtoms]
  | case2 => simp [segmentAtoms]
  | case3 t => simp [segmentAtoms, textAtoms_append]
  | case4 segment rest _ ih => rw [List.flatMap_cons, ih, List.flatMap_cons, List.append_assoc]

@[simp] theorem atoms_append (t u : Template) : (t ++ u).atoms = t.atoms ++ u.atoms := by
  obtain ⟨segments⟩ := u
  change (segments.foldl pushSegment t).atoms = _
  induction segments generalizing t with
  | nil => exact (List.append_nil _).symm
  | cons segment rest ih =>
    have hsegment : (t.pushSegment segment).atoms = t.atoms ++ segmentAtoms segment := by
      cases segment with
      | text s => exact atoms_pushText t s
      | var name => exact atoms_pushVar t name
    rw [List.foldl_cons, ih, hsegment, List.append_assoc]
    rfl

theorem atoms_ofTokens (bareText : String) (tokens : List Token) (start : Template) :
    (ofTokens bareText tokens start).atoms =
      start.atoms ++ tokens.flatMap fun token => segmentAtoms (token.segment bareText) := by
  rw [ofTokens_eq_append, atoms_append, ← List.flatMap_map]
  rfl

end Operations

section Evaluation

def eval (values : String → String) (t : Template) : String :=
  String.join (t.segments.map fun
    | .text s => s
    | .var name => values name)

def Atom.chars (values : String → String) : Atom → List Char
  | .char c => [c]
  | .var name => (values name).toList

theorem toList_eval (values : String → String) (t : Template) :
    (t.eval values).toList = t.atoms.flatMap (Atom.chars values) := by
  rw [eval, String.toList_join, atoms, List.flatMap_map, List.flatMap_assoc]
  congr 1
  funext segment
  cases segment with
  | text s => simp [segmentAtoms, textAtoms, List.flatMap_map, Atom.chars]
  | var name => simp [segmentAtoms, Atom.chars]

@[simp] theorem eval_pushText (values : String → String) (t : Template) (s : String) :
    (t.pushText s).eval values = t.eval values ++ s := by
  have hchars : (textAtoms s).flatMap (Atom.chars values) = s.toList := by
    simp [textAtoms, List.flatMap_map, Atom.chars]
  rw [← String.toList_inj, toList_eval, atoms_pushText, List.flatMap_append, hchars,
    String.toList_append, toList_eval]

@[simp] theorem eval_append (values : String → String) (t u : Template) :
    (t ++ u).eval values = t.eval values ++ u.eval values := by
  rw [← String.toList_inj, toList_eval, atoms_append, List.flatMap_append, String.toList_append,
    toList_eval, toList_eval]

end Evaluation

section Emptiness

theorem IsNormal.isEmpty_iff {t : Template} (h : t.IsNormal) : t.isEmpty ↔ t.atoms = [] := by
  obtain ⟨segments⟩ := t
  cases segments with
  | nil => simp [isEmpty, atoms]
  | cons segment rest =>
    have hsegment : segmentAtoms segment ≠ [] := by
      cases segment with
      | text s => simpa [segmentAtoms, textAtoms] using h.nonempty s (List.mem_cons_self ..)
      | var name => exact List.cons_ne_nil _ _
    simp [isEmpty, atoms, hsegment]

theorem segmentAtoms_afterDollar_ne_nil (cs : List Char) :
    segmentAtoms ((Token.afterDollar cs).1.segment "$") ≠ [] := by
  fun_cases Token.afterDollar cs <;> simp [Token.segment, segmentAtoms, textAtoms]

theorem atoms_parse_eq_nil_iff {s : String} : (parse s).atoms = [] ↔ s = "" := by
  rw [parse, atoms_ofTokens, scan, ← String.toList_eq_nil_iff]
  generalize s.toList = cs
  fun_cases Token.scanChars cs with
  | case1 => simp [atoms, empty]
  | case2 cs => simp [segmentAtoms_afterDollar_ne_nil]
  | case3 c cs hc => simp [Token.segment, segmentAtoms, textAtoms]

end Emptiness

section Uniqueness

def pushAtom (t : Template) : Atom → Template
  | .char c => t.pushText (String.ofList [c])
  | .var name => t.pushVar name

theorem foldl_pushAtom_chars (cs : List Char) (t : Template) :
    (cs.map Atom.char).foldl pushAtom t = t.pushText (String.ofList cs) := by
  induction cs generalizing t with
  | nil => exact (pushText_empty t).symm
  | cons c cs ih =>
    have hrest := ih (t.pushText (String.ofList [c]))
    rw [pushText_pushText, ← String.ofList_append] at hrest
    exact hrest

theorem foldl_pushAtom_segmentAtoms (t : Template) (segment : Segment) :
    (segmentAtoms segment).foldl pushAtom t = t.pushSegment segment := by
  cases segment with
  | text s =>
    have hchars := foldl_pushAtom_chars s.toList t
    rwa [String.ofList_toList] at hchars
  | var name => rfl

theorem foldl_pushAtom_atoms (t u : Template) : u.atoms.foldl pushAtom t = t ++ u := by
  have hstep : (fun t segment => (segmentAtoms segment).foldl pushAtom t) = pushSegment := by
    funext t segment
    exact foldl_pushAtom_segmentAtoms t segment
  unfold atoms
  rw [List.foldl_flatMap, hstep]
  rfl

/-- Templates in normal form that hold the same are the same. -/
theorem IsNormal.eq_of_atoms_eq {t u : Template} (ht : t.IsNormal) (hu : u.IsNormal)
    (h : t.atoms = u.atoms) : t = u := by
  calc
    t = t.atoms.foldl pushAtom empty := by
      rw [foldl_pushAtom_atoms, append_of_isNormal ht]
    _ = u := by
      rw [h, foldl_pushAtom_atoms, append_of_isNormal hu]

end Uniqueness

end FlowScript.Template
