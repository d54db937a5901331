import Mathlib.Data.List.Basic
import Mathlib.Data.List.Nodup

/-!
# Text in markup

A part of HTML: tags with attributes in double quotes, and text between them.
`print` writes texts and tags, with `escape` on every text and attribute value.
`read?` is how a browser goes over it: line breaks are normalised (`newlines`) and a
tokenizer takes the characters one by one (`step`).

The tokenizer has the states of the HTML standard that this part goes through.
What leaves it (a comment, an attribute without quotes, another character
reference, U+0000) is `none`, so a text that is read has none of it.

`read_print`: what is printed is read back, whatever the texts and values contain,
with their line breaks normalised.  `rows?` takes the rows of a table from the tokens,
each with its cells (`rows_tokens`).
-/

namespace Markup

inductive Tag
  | start (name : List Char) (attrs : List (List Char × List Char))
  | close (name : List Char)
deriving DecidableEq

inductive Token
  | char (c : Char)
  | tag (t : Tag)
deriving DecidableEq

/-- A tag and the text before it. -/
abbrev Piece := List Char × Tag

/-! ### Printing -/

/-- The five characters that are written as references. -/
def escapeChar (c : Char) : List Char :=
  if c = '&' then "&amp;".toList
  else if c = '<' then "&lt;".toList
  else if c = '>' then "&gt;".toList
  else if c = '\x22' then "&quot;".toList
  else if c = '\x27' then "&#39;".toList
  else [c]

def escape (s : List Char) : List Char := s.flatMap escapeChar

def printAttr (a : List Char × List Char) : List Char :=
  ' ' :: (a.1 ++ '=' :: '\x22' :: (escape a.2 ++ ['\x22']))

def printTag : Tag → List Char
  | .start name attrs => '<' :: (name ++ (attrs.flatMap printAttr ++ ['>']))
  | .close name => '<' :: '/' :: (name ++ ['>'])

def print (ps : List Piece) : List Char := ps.flatMap (fun p => escape p.1 ++ printTag p.2)

/-- The tokens that pieces stand for. -/
def content (ps : List Piece) : List Token := ps.flatMap (fun p => p.1.map .char ++ [.tag p.2])

/-! ### Machines that read and write -/

section
variable {σ α β : Type*} {f : σ → α → Option (σ × List β)} {m m₁ m₂ : σ} {c : α}
  {xs ys : List α} {ts us : List β}

/-- A machine with the steps `f`, over what it reads. -/
def run (f : σ → α → Option (σ × List β)) (m : σ) : List α → Option (σ × List β)
  | [] => some (m, [])
  | c :: cs =>
    (f m c).bind (fun (m', ts) => (run f m' cs).map (fun (m'', us) => (m'', ts ++ us)))

theorem run_cons (h₁ : f m c = some (m₁, ts)) (h₂ : run f m₁ xs = some (m₂, us)) :
    run f m (c :: xs) = some (m₂, ts ++ us) := by
  simp only [run, h₁, Option.bind_some, h₂, Option.map_some]

theorem run_singleton (h : f m c = some (m₁, ts)) : run f m [c] = some (m₁, ts) := by
  rw [← List.append_nil ts]
  exact run_cons h rfl

theorem run_append (h₁ : run f m xs = some (m₁, ts)) (h₂ : run f m₁ ys = some (m₂, us)) :
    run f m (xs ++ ys) = some (m₂, ts ++ us) := by
  induction xs generalizing m ts with
  | nil =>
    cases h₁
    exact h₂
  | cons c cs ih =>
    obtain ⟨⟨m', vs⟩, hs, h⟩ := Option.bind_eq_some_iff.mp h₁
    obtain ⟨⟨m'', ws⟩, hr, he⟩ := Option.map_eq_some_iff.mp h
    cases he
    rw [List.cons_append, List.append_assoc]
    exact run_cons hs (ih hr)

theorem run_cons_quiet (h₁ : f m c = some (m₁, [])) (h₂ : run f m₁ xs = some (m₂, us)) :
    run f m (c :: xs) = some (m₂, us) := run_cons h₁ h₂

theorem run_append_quiet (h₁ : run f m xs = some (m₁, [])) (h₂ : run f m₁ ys = some (m₂, us)) :
    run f m (xs ++ ys) = some (m₂, us) := run_append h₁ h₂

theorem run_flatMap {γ : Type*} {q : List γ → σ} {g : γ → List α} {p : γ → Prop} {s : List γ}
    (hq : ∀ acc c, p c → run f (q acc) (g c) = some (q (acc ++ [c]), []))
    (hs : ∀ c ∈ s, p c) (acc : List γ) :
    run f (q acc) (s.flatMap g) = some (q (acc ++ s), []) := by
  induction s generalizing acc with
  | nil => rw [List.append_nil]; rfl
  | cons c cs ih =>
    have hrest := ih (fun x hx => hs x (List.mem_cons_of_mem c hx)) (acc ++ [c])
    rw [List.append_assoc] at hrest
    rw [List.flatMap_cons]
    exact run_append (hq acc c (hs c List.mem_cons_self)) hrest

end

/-! ### Reading -/

/-- CR and CRLF become LF. -/
def newlines : List Char → List Char
  | [] => []
  | c :: cs =>
    if c = '\r' then
      if cs.head? = some '\n' then newlines cs else '\n' :: newlines cs
    else c :: newlines cs

/-- Where the tokenizer is. -/
inductive Mode
  | data
  | reference (acc : List Char)
  | tagOpen
  | endTagOpen
  | endTagName (name : List Char)
  | tagName (name : List Char)
  | beforeAttribute (name : List Char) (attrs : List (List Char × List Char))
  | attributeName (name : List Char) (attrs : List (List Char × List Char)) (attr : List Char)
  | beforeValue (name : List Char) (attrs : List (List Char × List Char)) (attr : List Char)
  | value (name : List Char) (attrs : List (List Char × List Char)) (attr v : List Char)
  | valueReference (name : List Char) (attrs : List (List Char × List Char))
      (attr v acc : List Char)
  | afterValue (name : List Char) (attrs : List (List Char × List Char))

/-- A character of a tag or attribute name. -/
def nameChar (c : Char) : Bool := c.isLower || c.isDigit || c = '-'

/-- A character of a reference. -/
def referenceChar (c : Char) : Bool := c.isAlphanum || c = '#'

/-- The character that a reference stands for. -/
def reference? (acc : List Char) : Option Char :=
  if acc = "amp".toList then some '&'
  else if acc = "lt".toList then some '<'
  else if acc = "gt".toList then some '>'
  else if acc = "quot".toList then some '\x22'
  else if acc = "#39".toList then some '\x27'
  else none

/-- The tokenizer, over one character. -/
def step : Mode → Char → Option (Mode × List Token)
  | .data, c =>
    if c = '<' then some (.tagOpen, [])
    else if c = '&' then some (.reference [], [])
    else if c = '\x00' then none
    else some (.data, [.char c])
  | .reference acc, c =>
    if c = ';' then (reference? acc).map (fun r => (.data, [.char r]))
    else if referenceChar c then some (.reference (acc ++ [c]), [])
    else none
  | .tagOpen, c =>
    if c = '/' then some (.endTagOpen, [])
    else if c.isLower then some (.tagName [c], [])
    else none
  | .endTagOpen, c => if c.isLower then some (.endTagName [c], []) else none
  | .endTagName name, c =>
    if c = '>' then some (.data, [.tag (.close name)])
    else if nameChar c then some (.endTagName (name ++ [c]), [])
    else none
  | .tagName name, c =>
    if c = '>' then some (.data, [.tag (.start name [])])
    else if c = ' ' then some (.beforeAttribute name [], [])
    else if nameChar c then some (.tagName (name ++ [c]), [])
    else none
  | .beforeAttribute name attrs, c =>
    if c.isLower then some (.attributeName name attrs [c], []) else none
  | .attributeName name attrs attr, c =>
    if c = '=' then
      -- of two attributes of one name a browser drops the second
      if attr ∈ attrs.map Prod.fst then none else some (.beforeValue name attrs attr, [])
    else if nameChar c then some (.attributeName name attrs (attr ++ [c]), [])
    else none
  | .beforeValue name attrs attr, c =>
    if c = '\x22' then some (.value name attrs attr [], []) else none
  | .value name attrs attr v, c =>
    if c = '\x22' then some (.afterValue name (attrs ++ [(attr, v)]), [])
    else if c = '&' then some (.valueReference name attrs attr v [], [])
    else if c = '\x00' then none
    else some (.value name attrs attr (v ++ [c]), [])
  | .valueReference name attrs attr v acc, c =>
    if c = ';' then (reference? acc).map (fun r => (.value name attrs attr (v ++ [r]), []))
    else if referenceChar c then some (.valueReference name attrs attr v (acc ++ [c]), [])
    else none
  | .afterValue name attrs, c =>
    if c = '>' then some (.data, [.tag (.start name attrs)])
    else if c = ' ' then some (.beforeAttribute name attrs, [])
    else none

/-- The tokens of a text. -/
def read? (cs : List Char) : Option (List Token) :=
  match run step .data (newlines cs) with
  | some (.data, ts) => some ts
  | _ => none

/-! ### Texts and names over the tokenizer -/

variable {m : Mode} {c : Char} {s xs ys : List Char}

theorem run_name {f : List Char → Mode}
    (hf : ∀ acc c, nameChar c = true → step (f acc) c = some (f (acc ++ [c]), []))
    (hs : s.all nameChar = true) (acc : List Char) :
    run step (f acc) s = some (f (acc ++ s), []) := by
  have h := run_flatMap (g := fun c => [c]) (p := fun c => nameChar c = true)
    (fun acc c hc => run_singleton (hf acc c hc)) (List.all_eq_true.mp hs) acc
  rwa [List.flatMap_singleton'] at h

theorem escapeChar_cases (c : Char) :
    (c = '&' ∧ escapeChar c = "&amp;".toList) ∨ (c = '<' ∧ escapeChar c = "&lt;".toList) ∨
    (c = '>' ∧ escapeChar c = "&gt;".toList) ∨ (c = '\x22' ∧ escapeChar c = "&quot;".toList) ∨
    (c = '\x27' ∧ escapeChar c = "&#39;".toList) ∨
    (c ≠ '&' ∧ c ≠ '<' ∧ c ≠ '\x22' ∧ escapeChar c = [c]) := by
  unfold escapeChar
  split_ifs with h₁ h₂ h₃ h₄ h₅ <;> simp [*]

/-- **A character is read back** as text. -/
theorem run_escapeChar_data (hc : c ≠ '\x00') :
    run step .data (escapeChar c) = some (.data, [.char c]) := by
  rcases escapeChar_cases c with
    ⟨rfl, -⟩ | ⟨rfl, -⟩ | ⟨rfl, -⟩ | ⟨rfl, -⟩ | ⟨rfl, -⟩ | ⟨hamp, hlt, -, he⟩
  case inr.inr.inr.inr.inr =>
    rw [he]
    exact run_singleton (by rw [step, if_neg hlt, if_neg hamp, if_neg hc])
  all_goals rfl

/-- **A character is read back** in a value. -/
theorem run_escapeChar_value {name attr v : List Char} {attrs : List (List Char × List Char)}
    (hc : c ≠ '\x00') :
    run step (.value name attrs attr v) (escapeChar c) =
      some (.value name attrs attr (v ++ [c]), []) := by
  rcases escapeChar_cases c with
    ⟨rfl, -⟩ | ⟨rfl, -⟩ | ⟨rfl, -⟩ | ⟨rfl, -⟩ | ⟨rfl, -⟩ | ⟨hamp, -, hquote, he⟩
  case inr.inr.inr.inr.inr =>
    rw [he]
    exact run_singleton (by rw [step, if_neg hquote, if_neg hamp, if_neg hc])
  all_goals rfl

theorem run_escape_data (hs : '\x00' ∉ s) :
    run step .data (escape s) = some (.data, s.map .char) := by
  induction s with
  | nil => rfl
  | cons c cs ih =>
    rw [List.mem_cons, not_or] at hs
    exact run_append (run_escapeChar_data (Ne.symm hs.1)) (ih hs.2)

theorem run_escape_value (name attr : List Char) (attrs : List (List Char × List Char))
    (hs : '\x00' ∉ s) :
    run step (.value name attrs attr []) (escape s) = some (.value name attrs attr s, []) :=
  run_flatMap (p := (· ≠ '\x00')) (fun _ _ hc => run_escapeChar_value hc)
    (fun _ hc h => hs (h ▸ hc)) []

/-! ### Tags over the tokenizer -/

/-- A tag or attribute name. -/
def isName : List Char → Bool
  | [] => false
  | c :: cs => c.isLower && cs.all nameChar

/-- An attribute that can be read back. -/
structure ReadableAttr (a : List Char × List Char) : Prop where
  name : isName a.1 = true
  value : '\x00' ∉ a.2

/-- A tag that can be read back. -/
def Tag.Readable : Tag → Prop
  | .start name attrs =>
    isName name = true ∧ (∀ a ∈ attrs, ReadableAttr a) ∧ (attrs.map Prod.fst).Nodup
  | .close name => isName name = true

variable {name : List Char} {attrs as : List (List Char × List Char)} {a : List Char × List Char}

theorem ne_of_nameChar {d : Char} (hc : nameChar c = true) (hd : nameChar d = false) : c ≠ d := by
  rintro rfl
  rw [hc] at hd
  cases hd

theorem step_open : step .data '<' = some (.tagOpen, []) := rfl

theorem step_slash : step .tagOpen '/' = some (.endTagOpen, []) := rfl

theorem step_tagName (hc : nameChar c = true) :
    step (.tagName name) c = some (.tagName (name ++ [c]), []) := by
  rw [step, if_neg (ne_of_nameChar hc rfl), if_neg (ne_of_nameChar hc rfl), if_pos hc]

theorem step_endTagName (hc : nameChar c = true) :
    step (.endTagName name) c = some (.endTagName (name ++ [c]), []) := by
  rw [step, if_neg (ne_of_nameChar hc rfl), if_pos hc]

theorem step_attributeName {attr : List Char} (hc : nameChar c = true) :
    step (.attributeName name attrs attr) c =
      some (.attributeName name attrs (attr ++ [c]), []) := by
  rw [step, if_neg (ne_of_nameChar hc rfl), if_pos hc]

/-- An attribute, after a character that leads to it. -/
theorem run_printAttr (hm : step m ' ' = some (.beforeAttribute name attrs, []))
    (ha : ReadableAttr a) (hnew : a.1 ∉ attrs.map Prod.fst) :
    run step m (printAttr a) = some (.afterValue name (attrs ++ [a]), []) := by
  obtain ⟨attr, v⟩ := a
  obtain ⟨hname, hv⟩ := ha
  cases attr with
  | nil => cases hname
  | cons c cs =>
    rw [isName, Bool.and_eq_true] at hname
    have hfirst : step (.beforeAttribute name attrs) c =
        some (.attributeName name attrs [c], []) := by
      rw [step, if_pos hname.1]
    have hrest := run_name (f := .attributeName name attrs)
      (fun _ _ hc => step_attributeName hc) hname.2 [c]
    have heq : step (.attributeName name attrs (c :: cs)) '=' =
        some (.beforeValue name attrs (c :: cs), []) := by
      rw [step, if_pos rfl, if_neg hnew]
    have hquote : step (.beforeValue name attrs (c :: cs)) '\x22' =
        some (.value name attrs (c :: cs) [], []) := rfl
    have hend : run step (.value name attrs (c :: cs) v) ['\x22'] =
        some (.afterValue name (attrs ++ [(c :: cs, v)]), []) := rfl
    have hvalue := run_append_quiet (run_escape_value name (c :: cs) attrs hv) hend
    exact run_cons_quiet hm (run_cons_quiet hfirst (run_append_quiet hrest
      (run_cons_quiet heq (run_cons_quiet hquote hvalue))))

theorem run_printAttrs (attrs : List (List Char × List Char)) (has : ∀ a ∈ as, ReadableAttr a)
    (hnodup : ((attrs ++ as).map Prod.fst).Nodup) :
    run step (.afterValue name attrs) (as.flatMap printAttr) =
      some (.afterValue name (attrs ++ as), []) := by
  induction as generalizing attrs with
  | nil => rw [List.append_nil]; rfl
  | cons a as ih =>
    have hnew : a.1 ∉ attrs.map Prod.fst := by
      rw [List.map_append, List.map_cons] at hnodup
      exact fun h => (List.nodup_append.mp hnodup).2.2 _ h _ List.mem_cons_self rfl
    have hfirst := run_printAttr (m := .afterValue name attrs) rfl (has a List.mem_cons_self) hnew
    have hrest := ih (attrs ++ [a]) (fun x hx => has x (List.mem_cons_of_mem a hx))
      (by rwa [List.append_assoc])
    rw [List.append_assoc] at hrest
    exact run_append_quiet hfirst hrest

/-- **A tag is read back.** -/
theorem run_printTag {t : Tag} (ht : t.Readable) :
    run step .data (printTag t) = some (.data, [.tag t]) := by
  cases t with
  | close name =>
    cases name with
    | nil => cases ht
    | cons c cs =>
      rw [Tag.Readable, isName, Bool.and_eq_true] at ht
      have hfirst : step .endTagOpen c = some (.endTagName [c], []) := by
        rw [step, if_pos ht.1]
      have hrest := run_name (f := .endTagName) (fun _ _ hc => step_endTagName hc) ht.2 [c]
      have hend : run step (.endTagName (c :: cs)) ['>'] =
          some (.data, [.tag (.close (c :: cs))]) := rfl
      exact run_cons_quiet step_open (run_cons_quiet step_slash
        (run_cons_quiet hfirst (run_append_quiet hrest hend)))
  | start name attrs =>
    obtain ⟨hname, hattrs, hnodup⟩ := ht
    cases name with
    | nil => cases hname
    | cons c cs =>
      rw [isName, Bool.and_eq_true] at hname
      have hfirst : step .tagOpen c = some (.tagName [c], []) := by
        have hslash : c ≠ '/' := by
          rintro rfl
          exact absurd hname.1 (by decide)
        rw [step, if_neg hslash, if_pos hname.1]
      have hrest := run_name (f := .tagName) (fun _ _ hc => step_tagName hc) hname.2 [c]
      have hend : run step (.tagName (c :: cs)) (attrs.flatMap printAttr ++ ['>']) =
          some (.data, [.tag (.start (c :: cs) attrs)]) := by
        cases attrs with
        | nil => rfl
        | cons a as =>
          have hone := run_printAttr (m := .tagName (c :: cs)) rfl (hattrs a List.mem_cons_self)
            List.not_mem_nil
          have hmore : run step (.afterValue (c :: cs) [a]) (as.flatMap printAttr) =
              some (.afterValue (c :: cs) (a :: as), []) :=
            run_printAttrs [a] (fun x hx => hattrs x (List.mem_cons_of_mem a hx)) hnodup
          exact run_append_quiet (run_append_quiet hone hmore) rfl
      exact run_cons_quiet step_open (run_cons_quiet hfirst (run_append_quiet hrest hend))

/-! ### Line breaks -/

theorem newlines_append_left (hs : '\r' ∉ xs) : newlines (xs ++ ys) = xs ++ newlines ys := by
  induction xs with
  | nil => rfl
  | cons c cs ih =>
    rw [List.mem_cons, not_or] at hs
    rw [List.cons_append, newlines, if_neg (Ne.symm hs.1), ih hs.2, List.cons_append]

theorem newlines_append (hy : ys.head? ≠ some '\n') :
    newlines (xs ++ ys) = newlines xs ++ newlines ys := by
  induction xs with
  | nil => rfl
  | cons c cs ih =>
    have hhead : (cs ++ ys).head? = some '\n' ↔ cs.head? = some '\n' := by
      cases cs with
      | nil => simp [hy]
      | cons => rfl
    rw [List.cons_append, newlines, newlines, ih]
    by_cases hc : c = '\r'
    · by_cases hn : cs.head? = some '\n'
      · rw [if_pos hc, if_pos hc, if_pos hn, if_pos (hhead.mpr hn)]
      · rw [if_pos hc, if_pos hc, if_neg hn, if_neg (fun h => hn (hhead.mp h)), List.cons_append]
    · rw [if_neg hc, if_neg hc, List.cons_append]

theorem mem_newlines (h : c ∈ newlines s) : c ∈ s ∨ c = '\n' := by
  induction s with
  | nil => cases h
  | cons d cs ih =>
    rw [newlines] at h
    split_ifs at h
    · exact (ih h).imp_left (List.mem_cons_of_mem d)
    all_goals
      rcases List.mem_cons.mp h with rfl | h
      · simp
      · exact (ih h).imp_left (List.mem_cons_of_mem d)

theorem notMem_newlines (hc : c ≠ '\n') (hs : c ∉ s) : c ∉ newlines s := fun h =>
  (mem_newlines h).elim hs hc

theorem escape_of_plain (hs : ∀ c ∈ s, escapeChar c = [c]) : escape s = s := by
  rw [escape, List.flatMap_congr hs, List.flatMap_singleton']

theorem head?_escape : (escape s).head? = some '\n' ↔ s.head? = some '\n' := by
  cases s with
  | nil => rfl
  | cons c cs =>
    rw [escape, List.flatMap_cons]
    rcases escapeChar_cases c with ⟨rfl, he⟩ | ⟨rfl, he⟩ | ⟨rfl, he⟩ | ⟨rfl, he⟩ | ⟨rfl, he⟩ |
      ⟨-, -, -, he⟩ <;> rw [he] <;> simp

theorem notMem_escapeChar (hc : c ≠ '\r') : '\r' ∉ escapeChar c := by
  rcases escapeChar_cases c with ⟨rfl, he⟩ | ⟨rfl, he⟩ | ⟨rfl, he⟩ | ⟨rfl, he⟩ | ⟨rfl, he⟩ |
    ⟨-, -, -, he⟩ <;> rw [he]
  case inr.inr.inr.inr.inr => rwa [List.mem_singleton, eq_comm]
  all_goals decide

theorem newlines_escape (s : List Char) : newlines (escape s) = escape (newlines s) := by
  induction s with
  | nil => rfl
  | cons c cs ih =>
    by_cases hc : c = '\r'
    · subst hc
      show newlines ('\r' :: escape cs) = escape (newlines ('\r' :: cs))
      rw [newlines, newlines, if_pos rfl, if_pos rfl, ih]
      by_cases hn : cs.head? = some '\n'
      · rw [if_pos hn, if_pos (head?_escape.mpr hn)]
      · rw [if_neg hn, if_neg (fun h => hn (head?_escape.mp h))]
        rfl
    · rw [newlines, if_neg hc, escape, escape, List.flatMap_cons, List.flatMap_cons]
      exact (newlines_append_left (notMem_escapeChar hc)).trans (congrArg _ ih)

/-! ### The round trip -/

/-- A piece that can be read back. -/
structure Readable (p : Piece) : Prop where
  text : '\x00' ∉ p.1
  tag : p.2.Readable

theorem run_print {ps : List Piece} (hps : ∀ p ∈ ps, Readable p) :
    run step .data (print ps) = some (.data, content ps) := by
  induction ps with
  | nil => rfl
  | cons p ps ih =>
    obtain ⟨htext, htag⟩ := hps p List.mem_cons_self
    exact run_append (run_append (run_escape_data htext) (run_printTag htag))
      (ih (fun q hq => hps q (List.mem_cons_of_mem p hq)))

def Tag.normal : Tag → Tag
  | .start name attrs => .start name (attrs.map (fun a => (a.1, newlines a.2)))
  | .close name => .close name

/-- The piece with its line breaks normalised. -/
def normal (p : Piece) : Piece := (newlines p.1, p.2.normal)

theorem Readable.normal {p : Piece} (hp : Readable p) : Readable (normal p) := by
  obtain ⟨s, t⟩ := p
  obtain ⟨htext, htag⟩ := hp
  refine ⟨notMem_newlines (by decide) htext, ?_⟩
  cases t with
  | close name => exact htag
  | start name attrs =>
    obtain ⟨hname, hattrs, hnodup⟩ := htag
    refine ⟨hname, fun a ha => ?_, ?_⟩
    · obtain ⟨b, hb, rfl⟩ := List.mem_map.mp ha
      exact ⟨(hattrs b hb).name, notMem_newlines (by decide) (hattrs b hb).value⟩
    · rwa [List.map_map]

theorem notMem_of_isName (hs : isName s = true) : '\r' ∉ s := by
  cases s with
  | nil => exact List.not_mem_nil
  | cons c cs =>
    rw [isName, Bool.and_eq_true] at hs
    intro h
    rcases List.mem_cons.mp h with rfl | h
    · exact absurd hs.1 (by decide)
    · exact absurd (List.all_eq_true.mp hs.2 _ h) (by decide)

theorem newlines_printAttr (ha : ReadableAttr a) :
    newlines (printAttr a ++ ys) = printAttr (a.1, newlines a.2) ++ newlines ys := by
  have hleft : '\r' ∉ ' ' :: (a.1 ++ ['=', '\x22']) := by
    simp [notMem_of_isName ha.name]
  have hsplit : printAttr a ++ ys =
      (' ' :: (a.1 ++ ['=', '\x22'])) ++ (escape a.2 ++ '\x22' :: ys) := by
    simp [printAttr]
  rw [hsplit, newlines_append_left hleft, newlines_append (by simp), newlines_escape]
  simp [printAttr, newlines]

theorem newlines_printAttrs (has : ∀ a ∈ as, ReadableAttr a) :
    newlines (as.flatMap printAttr ++ ys) =
      (as.map (fun a => (a.1, newlines a.2))).flatMap printAttr ++ newlines ys := by
  induction as with
  | nil => rfl
  | cons a as ih =>
    rw [List.flatMap_cons, List.append_assoc, newlines_printAttr (has a List.mem_cons_self),
      ih (fun x hx => has x (List.mem_cons_of_mem a hx)), List.map_cons, List.flatMap_cons,
      List.append_assoc]

theorem newlines_printTag {t : Tag} (ht : t.Readable) :
    newlines (printTag t ++ ys) = printTag t.normal ++ newlines ys := by
  cases t with
  | close name =>
    have hname := notMem_of_isName ht
    exact newlines_append_left (by simp [printTag, hname])
  | start name attrs =>
    obtain ⟨hname, hattrs, -⟩ := ht
    have hleft : '\r' ∉ '<' :: name := by
      simp [notMem_of_isName hname]
    have hsplit : printTag (.start name attrs) ++ ys =
        ('<' :: name) ++ (attrs.flatMap printAttr ++ '>' :: ys) := by
      simp [printTag]
    rw [hsplit, newlines_append_left hleft, newlines_printAttrs hattrs]
    simp [printTag, Tag.normal, newlines]

theorem newlines_print {ps : List Piece} (hps : ∀ p ∈ ps, Readable p) :
    newlines (print ps) = print (ps.map normal) := by
  induction ps with
  | nil => rfl
  | cons p ps ih =>
    have htag := (hps p List.mem_cons_self).tag
    have hhead : (printTag p.2 ++ print ps).head? ≠ some '\n' := by
      cases p.2 <;> simp [printTag]
    have hsplit : print (p :: ps) = escape p.1 ++ (printTag p.2 ++ print ps) := by
      simp [print]
    rw [hsplit, newlines_append hhead, newlines_printTag htag, newlines_escape,
      ih (fun q hq => hps q (List.mem_cons_of_mem p hq))]
    simp [print, normal]

/-- **What is printed is read back**, with its line breaks normalised. -/
theorem read_print {ps : List Piece} (hps : ∀ p ∈ ps, Readable p) :
    read? (print ps) = some (content (ps.map normal)) := by
  have hnormal : ∀ p ∈ ps.map normal, Readable p := by
    intro p hp
    obtain ⟨q, hq, rfl⟩ := List.mem_map.mp hp
    exact (hps q hq).normal
  rw [read?, newlines_print hps, run_print hnormal]

/-! ### Tables -/

/-- A cell of a table, with what stands in it. -/
structure Cell where
  attrs : List (List Char × List Char)
  content : List Token
deriving DecidableEq

structure Row where
  attrs : List (List Char × List Char)
  cells : List Cell
deriving DecidableEq

/-- Where a browser is in the rows of a table. -/
inductive Spot
  | outside
  | inRow (row : Row)
  | inCell (row : Row) (cell : Cell)

def isSpace (c : Char) : Bool := c = ' ' || c = '\n'

/-- The token belongs to the table, not into a cell. -/
def Token.ofTable : Token → Bool
  | .char _ => false
  | .tag (.start name _) | .tag (.close name) => name = "tr".toList || name = "td".toList

/-- The rows of a table, over one token: text outside the cells, which a browser
moves out of the table, and a cell or a row that is not ended are `none`. -/
def tableStep : Spot → Token → Option (Spot × List Row)
  | .outside, .char c => if isSpace c then some (.outside, []) else none
  | .outside, .tag (.start name attrs) =>
    if name = "tr".toList then some (.inRow ⟨attrs, []⟩, []) else none
  | .outside, .tag (.close _) => none
  | .inRow row, .char c => if isSpace c then some (.inRow row, []) else none
  | .inRow row, .tag (.start name attrs) =>
    if name = "td".toList then some (.inCell row ⟨attrs, []⟩, []) else none
  | .inRow row, .tag (.close name) =>
    if name = "tr".toList then some (.outside, [row]) else none
  | .inCell row cell, token =>
    if token = .tag (.close "td".toList) then
      some (.inRow ⟨row.attrs, row.cells ++ [cell]⟩, [])
    else if token.ofTable then none
    else some (.inCell row ⟨cell.attrs, cell.content ++ [token]⟩, [])

/-- The rows of a table. -/
def rows? (tokens : List Token) : Option (List Row) :=
  match run tableStep .outside tokens with
  | some (.outside, rows) => some rows
  | _ => none

/-- The tokens of a cell and of a row, each tag after its white space. -/
def Cell.tokens (pad : List Char) (cell : Cell) : List Token :=
  pad.map .char ++ .tag (.start "td".toList cell.attrs) ::
    (cell.content ++ [.tag (.close "td".toList)])

def Row.tokens (pad stop : List Char) (row : Row) : List Token :=
  .tag (.start "tr".toList row.attrs) ::
    (row.cells.flatMap (Cell.tokens pad) ++ (stop.map .char ++ [.tag (.close "tr".toList)]))

/-- Nothing in the cell belongs to the table. -/
def Cell.Closed (cell : Cell) : Prop := ∀ t ∈ cell.content, t.ofTable = false

variable {pad stop : List Char}

theorem run_space {row : Row} (hpad : pad.all isSpace = true) :
    run tableStep (.inRow row) (pad.map .char) = some (.inRow row, []) := by
  induction pad with
  | nil => rfl
  | cons c cs ih =>
    rw [List.all_cons, Bool.and_eq_true] at hpad
    exact run_cons_quiet (by rw [tableStep, if_pos hpad.1]) (ih hpad.2)

theorem run_content {row : Row} {attrs : List (List Char × List Char)} {ts : List Token}
    (hts : ∀ t ∈ ts, t.ofTable = false) :
    run tableStep (.inCell row ⟨attrs, []⟩) ts = some (.inCell row ⟨attrs, ts⟩, []) := by
  have h := run_flatMap (q := fun acc => Spot.inCell row ⟨attrs, acc⟩) (g := fun t => [t])
    (p := fun t : Token => t.ofTable = false) (f := tableStep)
    (fun acc t ht => run_singleton (by
      have hend : t ≠ .tag (.close "td".toList) := by
        rintro rfl
        exact absurd ht (by decide)
      rw [tableStep, if_neg hend, ht]
      rfl)) hts []
  rwa [List.flatMap_singleton'] at h

/-- **A cell is read.** -/
theorem run_cell {attrs : List (List Char × List Char)} {cells : List Cell} {cell : Cell}
    (hpad : pad.all isSpace = true) (hcell : cell.Closed) :
    run tableStep (.inRow ⟨attrs, cells⟩) (cell.tokens pad) =
      some (.inRow ⟨attrs, cells ++ [cell]⟩, []) := by
  have hend : run tableStep (.inCell ⟨attrs, cells⟩ cell) [.tag (.close "td".toList)] =
      some (.inRow ⟨attrs, cells ++ [cell]⟩, []) := run_singleton (by rw [tableStep, if_pos rfl])
  have hopen : tableStep (.inRow ⟨attrs, cells⟩) (.tag (.start "td".toList cell.attrs)) =
      some (.inCell ⟨attrs, cells⟩ ⟨cell.attrs, []⟩, []) := by
    rw [tableStep, if_pos rfl]
  exact run_append_quiet (run_space hpad)
    (run_cons_quiet hopen (run_append_quiet (run_content hcell) hend))

/-- **A row is read.** -/
theorem run_row {row : Row} (hpad : pad.all isSpace = true) (hstop : stop.all isSpace = true)
    (hcells : ∀ c ∈ row.cells, c.Closed) :
    run tableStep .outside (row.tokens pad stop) = some (.outside, [row]) := by
  have hopen : tableStep .outside (.tag (.start "tr".toList row.attrs)) =
      some (.inRow ⟨row.attrs, []⟩, []) := by
    rw [tableStep, if_pos rfl]
  have hend : run tableStep (.inRow row) [.tag (.close "tr".toList)] = some (.outside, [row]) :=
    run_singleton (by rw [tableStep, if_pos rfl])
  have hmiddle := run_flatMap (q := fun acc => Spot.inRow ⟨row.attrs, acc⟩) (g := Cell.tokens pad)
    (p := Cell.Closed) (f := tableStep) (fun _ _ hc => run_cell hpad hc) hcells []
  exact run_cons_quiet hopen (run_append_quiet hmiddle (run_append_quiet (run_space hstop) hend))

/-- **A table is read, row by row.** -/
theorem rows_tokens {rows : List Row} (hpad : pad.all isSpace = true)
    (hstop : stop.all isSpace = true) (hrows : ∀ row ∈ rows, ∀ c ∈ row.cells, c.Closed) :
    rows? (rows.flatMap (Row.tokens pad stop)) = some rows := by
  have hrun : run tableStep .outside (rows.flatMap (Row.tokens pad stop)) =
      some (.outside, rows) := by
    induction rows with
    | nil => rfl
    | cons row rows ih =>
      rw [List.forall_mem_cons] at hrows
      exact run_append (run_row hpad hstop hrows.1) (ih hrows.2)
  rw [rows?, hrun]

end Markup
