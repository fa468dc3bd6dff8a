import Mathlib.Data.List.Infix
import Mathlib.Data.List.TakeWhile
import Telemetry.Proofs.Http.Path
import Telemetry.Server.Page
/-!
The texts of the metrics and the markup of their page. The page is laid out by a function that cannot
look at the texts, so its tags depend on the numbers of gauges and counters alone. What is written for a
text can neither begin nor end a tag or a quotation, every ampersand in it begins one of five entities,
and whoever takes the page apart at its tags gets the listing back.
-/

namespace Telemetry.Server.Page

/-! ### The layout -/

/-- A text on the page: one of its own, or one that it was told. -/
inductive Text (α : Type) where
  | own (s : String)
  | told (a : α)

structure Piece (α : Type) where
  tag : String
  text : Text α

section Layout

variable {α : Type}

def headPieces : List (Piece α) :=
  [⟨"!DOCTYPE html", .own "\n"⟩, ⟨"html", .own "\n"⟩, ⟨"head", .own ""⟩,
    ⟨"meta charset=\"utf-8\"", .own ""⟩, ⟨"title", .own "pulsemon"⟩, ⟨"/title", .own ""⟩,
    ⟨"style", .own style⟩, ⟨"/style", .own ""⟩, ⟨"/head", .own "\n"⟩, ⟨"body", .own "\n"⟩,
    ⟨"h1", .own "METRICS"⟩, ⟨"/h1", .own "\n"⟩, ⟨"div class=\"metrics\"", .own "\n"⟩]

def tailPieces : List (Piece α) := [⟨"/div", .own "\n"⟩, ⟨"/body", .own "\n"⟩, ⟨"/html", .own "\n"⟩]

def rowPieces (r : α × α) : List (Piece α) :=
  [⟨"tr", .own ""⟩, ⟨"td", .told r.1⟩, ⟨"/td", .own ""⟩, ⟨"td", .told r.2⟩, ⟨"/td", .own ""⟩,
    ⟨"/tr", .own "\n"⟩]

def rowsPieces : List (α × α) → List (Piece α)
  | [] => [⟨"tr", .own ""⟩, ⟨"td", .own "no metrics"⟩, ⟨"/td", .own ""⟩, ⟨"/tr", .own "\n"⟩]
  | r :: rows => (r :: rows).flatMap rowPieces

def tablePieces (title : String) (rows : List (α × α)) : List (Piece α) :=
  [⟨"div", .own "\n"⟩, ⟨"h3", .own title⟩, ⟨"/h3", .own "\n"⟩, ⟨"table", .own "\n"⟩] ++
    rowsPieces rows ++ [⟨"/table", .own "\n"⟩, ⟨"/div", .own "\n"⟩]

/-- The page with these texts in its rows. -/
def layout (gauges counters : List (α × α)) : List (Piece α) :=
  headPieces ++ tablePieces "Gauge" gauges ++ tablePieces "Counter" counters ++ tailPieces

end Layout

def pieces (l : Listing) : List (Piece String) := layout l.gauges.toList l.counters.toList

def template (gauges counters : Nat) : List (Piece Unit) :=
  layout (List.replicate gauges ((), ())) (List.replicate counters ((), ()))

def Text.erase {α : Type} : Text α → Text Unit
  | own s => .own s
  | told _ => .told ()

def Piece.erase {α : Type} (p : Piece α) : Piece Unit := ⟨p.tag, p.text.erase⟩

theorem erase_flatMap {α : Type} (rows : List (α × α)) : (rows.flatMap rowPieces).map Piece.erase =
    (List.replicate rows.length ((), ())).flatMap rowPieces := by
  induction rows with
  | nil => rfl
  | cons r rows ih =>
    rw [List.flatMap_cons, List.map_append, ih]
    rfl

theorem erase_rows {α : Type} (rows : List (α × α)) :
    (rowsPieces rows).map Piece.erase = rowsPieces (List.replicate rows.length ((), ())) := by
  cases rows with
  | nil => rfl
  | cons r rows => exact erase_flatMap (r :: rows)

theorem erase_layout {α : Type} (gauges counters : List (α × α)) :
    (layout gauges counters).map Piece.erase = template gauges.length counters.length := by
  simp only [layout, tablePieces, template, List.map_append, erase_rows]
  rfl

theorem erase_pieces (l : Listing) :
    (pieces l).map Piece.erase = template l.gauges.size l.counters.size := by
  rw [pieces, erase_layout, Std.ExtTreeMap.length_toList, Std.ExtTreeMap.length_toList]

/-! ### What is written -/

def Text.written : Text String → String
  | own s => s
  | told s => escape s

def Piece.written (p : Piece String) : String := "<" ++ p.tag ++ ">" ++ p.text.written

theorem written_row (e : String × String) : String.join ((rowPieces e).map Piece.written) = row e := by
  simp [rowPieces, row, Piece.written, Text.written, ← String.append_assoc]

theorem written_flatMap (entries : List (String × String)) :
    String.join ((entries.flatMap rowPieces).map Piece.written) = String.join (entries.map row) := by
  induction entries with
  | nil => rfl
  | cons e entries ih =>
    rw [List.flatMap_cons, List.map_append, String.join_append, written_row, ih, List.map_cons,
      String.join_cons]

theorem written_rows (entries : List (String × String)) :
    String.join ((rowsPieces entries).map Piece.written) = rows entries := by
  cases entries with
  | nil => simp [rowsPieces, rows, Piece.written, Text.written]
  | cons e entries =>
    rw [rows, if_neg (List.cons_ne_nil _ _)]
    exact written_flatMap (e :: entries)

theorem written_table (title : String) (entries : List (String × String)) :
    String.join ((tablePieces title entries).map Piece.written) = table title entries := by
  simp [tablePieces, table, Piece.written, Text.written, written_rows, ← String.append_assoc]

theorem written_head : String.join (headPieces.map Piece.written) =
    "<!DOCTYPE html>\n<html>\n<head><meta charset=\"utf-8\"><title>pulsemon</title><style>" ++ style ++
      "</style></head>\n<body>\n<h1>METRICS</h1>\n<div class=\"metrics\">\n" := by
  simp [headPieces, Piece.written, Text.written, ← String.append_assoc]

theorem written_tail : String.join (tailPieces.map Piece.written) = "</div>\n</body>\n</html>\n" := by
  simp [tailPieces, Piece.written, Text.written]

theorem written_pieces (l : Listing) : String.join ((pieces l).map Piece.written) = render l := by
  simp only [pieces, layout, List.map_append, String.join_append, written_head, written_table,
    written_tail]
  -- Not by unfolding `render`: `simp` would compare its literals one character after the other.
  rfl

/-! ### The texts of the page -/

theorem not_mem_of_all {cs forbidden : List Char} {c : Char} (h : cs.all (· ∉ forbidden))
    (mem : c ∈ forbidden) : c ∉ cs :=
  fun there => of_decide_eq_true (List.all_eq_true.mp h c there) mem

def Text.plain : Text String → Bool
  | own s => s.toList.all (· ∉ ['<', '&'])
  | told _ => true

/-- Whether a tag is closed where it ends, and no text of the page opens another one or is escaped. -/
def Piece.plain (p : Piece String) : Bool := p.tag.toList.all (· ∉ ['<', '>', '&']) && p.text.plain

theorem plain_head : headPieces.all Piece.plain := by decide +kernel

theorem plain_tail : tailPieces.all Piece.plain := by decide +kernel

theorem plain_rows (rows : List (String × String)) : (rowsPieces rows).all Piece.plain := by
  cases rows with
  | nil => rfl
  | cons r rows =>
    rw [rowsPieces, List.all_flatMap]
    exact List.all_eq_true.mpr fun e _ => by simp [rowPieces, Piece.plain, Text.plain]

theorem plain_table {title : String} (h : (Text.own title).plain) (rows : List (String × String)) :
    (tablePieces title rows).all Piece.plain := by
  simpa [tablePieces, plain_rows, Piece.plain, Text.plain] using h

theorem plain_pieces (l : Listing) : (pieces l).all Piece.plain := by
  rw [pieces, layout, List.all_append, List.all_append, List.all_append, plain_head,
    plain_table (by decide), plain_table (by decide), plain_tail]
  rfl

/-! ### Where the characters come from -/

/-- A character of the page: its own, or one that is written for a text. -/
inductive Letter where
  | own (c : Char)
  | told (c : Char)

def Letter.char : Letter → Char
  | own c => c
  | told c => c

def Text.letters : Text String → List Letter
  | own s => s.toList.map .own
  | told s => (escape s).toList.map .told

def Piece.letters (p : Piece String) : List Letter :=
  ("<" ++ p.tag ++ ">").toList.map .own ++ p.text.letters

def letters (l : Listing) : List Letter := (pieces l).flatMap Piece.letters

theorem char_map {mark : Char → Letter} (h : ∀ c, (mark c).char = c) (cs : List Char) :
    (cs.map mark).map Letter.char = cs := by
  rw [List.map_map]
  exact (List.map_congr_left fun c _ => h c).trans (List.map_id cs)

theorem char_piece (p : Piece String) : p.letters.map Letter.char = p.written.toList := by
  have behind : p.text.letters.map Letter.char = p.text.written.toList := by
    cases p.text with
    | own s => exact char_map (fun _ => rfl) _
    | told s => exact char_map (fun _ => rfl) _
  rw [Piece.letters, List.map_append, char_map fun _ => rfl, behind, Piece.written,
    ← String.toList_append]

theorem char_letters (l : Listing) : (letters l).map Letter.char = (render l).toList := by
  rw [← written_pieces, String.toList_join, letters, List.map_flatMap, List.flatMap_map]
  exact congrArg (List.flatMap · (pieces l)) (funext char_piece)

def delimiters : List Char := ['<', '>', '"', '\'']

def entities : List String := ["&amp;", "&lt;", "&gt;", "&quot;", "&#39;"]

theorem escapeChar_cases (c : Char) : (∃ entity ∈ entities, escapeChar c = entity.toList) ∨
    escapeChar c = [c] ∧ c ≠ '&' ∧ c ∉ delimiters := by
  unfold escapeChar
  split
  case h_6 _ amp lt gt quote apostrophe =>
    exact .inr ⟨rfl, amp, by simpa [delimiters] using ⟨lt, gt, quote, apostrophe⟩⟩
  all_goals exact .inl ⟨_, by simp [entities], rfl⟩

theorem not_mem_escape {s : String} {c : Char} (h : c ∈ delimiters) : c ∉ (escape s).toList := by
  have plain : ∀ entity ∈ entities, ∀ d ∈ entity.toList, d ∉ delimiters := by
    simp [entities, delimiters]
  rw [escape, String.toList_ofList]
  intro written
  obtain ⟨d, -, hc⟩ := List.mem_flatMap.mp written
  rcases escapeChar_cases d with ⟨entity, mem, same⟩ | ⟨same, -, other⟩
  · exact plain entity mem c (same ▸ hc) h
  · rw [same, List.mem_singleton] at hc
    exact other (hc ▸ h)

theorem told_not_mem_letters {l : Listing} {c : Char} (h : c ∈ delimiters) :
    Letter.told c ∉ letters l := by
  intro mem
  obtain ⟨p, -, mem⟩ := List.mem_flatMap.mp mem
  rcases List.mem_append.mp mem with mem | mem
  · simp at mem
  cases text : p.text with
  | own s => simp [text, Text.letters] at mem
  | told s =>
    rw [text, Text.letters, List.mem_map] at mem
    obtain ⟨d, written, same⟩ := mem
    exact not_mem_escape h (Letter.told.inj same ▸ written)

/-! ### Ampersands -/

/-- Every ampersand begins an entity that is written for a text. -/
def Entitled (ls : List Letter) : Prop := ∀ x after, x :: after <:+ ls → x.char = '&' →
  ∃ entity ∈ entities, entity.toList.map Letter.told <+: x :: after

theorem entitled_of_absent {ls : List Letter} (h : ∀ x ∈ ls, x.char ≠ '&') : Entitled ls :=
  fun x _ behind amp => absurd amp (h x (behind.mem List.mem_cons_self))

theorem Entitled.append {ls more : List Letter} (h : Entitled ls) (k : Entitled more) :
    Entitled (ls ++ more) := by
  induction ls with
  | nil => exact k
  | cons y ls ih =>
    intro x after behind amp
    rcases List.suffix_cons_iff.mp behind with same | behind
    · -- An entity that begins in the first part ends there.
      obtain ⟨rfl, rfl⟩ := List.cons.inj same
      obtain ⟨entity, mem, begins⟩ := h x ls List.suffix_rfl amp
      exact ⟨entity, mem, begins.trans (List.prefix_append _ _)⟩
    · exact ih (fun x after there => h x after (there.trans (List.suffix_cons y ls))) x after behind amp

theorem entitled_flatMap {α : Type} {f : α → List Letter} {as : List α} (h : ∀ a ∈ as, Entitled (f a)) :
    Entitled (as.flatMap f) := by
  induction as with
  | nil => exact entitled_of_absent fun x hx => nomatch hx
  | cons a as ih =>
    obtain ⟨first, rest⟩ := List.forall_mem_cons.mp h
    exact first.append (ih rest)

theorem entitled_of_entity {entity : String} (h : entity ∈ entities) :
    Entitled (entity.toList.map .told) := by
  obtain ⟨cs, same, plain⟩ : ∃ cs, entity.toList = '&' :: cs ∧ '&' ∉ cs := by
    simp only [entities, List.mem_cons, List.not_mem_nil, or_false] at h
    rcases h with rfl | rfl | rfl | rfl | rfl <;> exact ⟨_, rfl, by decide⟩
  intro x after behind amp
  rw [same, List.map_cons, List.suffix_cons_iff] at behind
  rcases behind with begins | behind
  · exact ⟨entity, h, by rw [begins, same, List.map_cons]⟩
  · obtain ⟨c, hc, rfl⟩ := List.mem_map.mp (behind.mem List.mem_cons_self)
    exact absurd (amp ▸ hc) plain

theorem entitled_escapeChar (c : Char) : Entitled ((escapeChar c).map .told) := by
  obtain ⟨entity, mem, same⟩ | ⟨same, plain, -⟩ := escapeChar_cases c
  · exact same ▸ entitled_of_entity mem
  · rw [same]
    exact entitled_of_absent (by simpa [Letter.char] using plain)

theorem entitled_escape (s : String) : Entitled ((escape s).toList.map .told) := by
  rw [escape, String.toList_ofList, List.map_flatMap]
  exact entitled_flatMap fun c _ => entitled_escapeChar c

theorem entitled_own {cs : List Char} (h : '&' ∉ cs) : Entitled (cs.map .own) := by
  refine entitled_of_absent fun x mem amp => ?_
  obtain ⟨c, hc, rfl⟩ := List.mem_map.mp mem
  exact h (amp ▸ hc)

theorem Text.entitled_letters {t : Text String} (h : t.plain) : Entitled t.letters := by
  cases t with
  | own s => exact entitled_own (not_mem_of_all h (by decide))
  | told s => exact entitled_escape s

theorem Piece.entitled_letters {p : Piece String} (h : p.plain) : Entitled p.letters := by
  obtain ⟨tag, text⟩ := Bool.and_eq_true_iff.mp h
  have unescaped : '&' ∉ p.tag.toList := not_mem_of_all tag (by decide)
  exact (entitled_own (by simpa using unescaped)).append (Text.entitled_letters text)

theorem entitled_letters (l : Listing) : Entitled (letters l) :=
  entitled_flatMap fun p mem => Piece.entitled_letters (List.all_eq_true.mp (plain_pieces l) p mem)

/-! ### Taking the page apart -/

/-- What stands between a `<` and the next one: up to the `>`, and behind it. -/
def element (cs : List Char) : String × String :=
  (String.ofList (cs.takeWhile (· ≠ '>')), String.ofList (cs.dropWhile (· ≠ '>')).tail)

def elements (page : String) : List (String × String) := (splitChars '<' page.toList).tail.map element

def tags (page : String) : List String := (elements page).map Prod.fst

def Piece.body (p : Piece String) : List Char := p.tag.toList ++ '>' :: p.text.written.toList

theorem Piece.toList_written (p : Piece String) : p.written.toList = '<' :: p.body := by
  simp [Piece.written, Piece.body]

theorem Text.not_mem_written {t : Text String} (h : t.plain) : '<' ∉ t.written.toList := by
  cases t with
  | own s => exact not_mem_of_all h (by decide)
  | told s => exact not_mem_escape List.mem_cons_self

theorem Piece.not_mem_body {p : Piece String} (h : p.plain) : '<' ∉ p.body := by
  obtain ⟨tag, text⟩ := Bool.and_eq_true_iff.mp h
  have closed : '<' ∉ p.tag.toList := not_mem_of_all tag (by decide)
  simp [body, closed, Text.not_mem_written text]

def Piece.element (p : Piece String) : String × String := (p.tag, p.text.written)

theorem element_body {p : Piece String} (h : p.plain) : element p.body = p.element := by
  obtain ⟨tag, -⟩ := Bool.and_eq_true_iff.mp h
  have inside : ∀ c ∈ p.tag.toList, decide (c ≠ '>') := fun c mem =>
    decide_eq_true fun same => not_mem_of_all tag (by decide) (same ▸ mem)
  rw [element, Piece.body, List.takeWhile_append_of_pos inside, List.dropWhile_append_of_pos inside]
  simp [Piece.element]

theorem splitChars_bodies {cs : List Char} {ps : List (Piece String)} (h : '<' ∉ cs)
    (plain : ps.all Piece.plain) :
    splitChars '<' (cs ++ ps.flatMap fun p => '<' :: p.body) = cs :: ps.map Piece.body := by
  induction ps generalizing cs with
  | nil => rw [List.flatMap_nil, List.append_nil, splitChars_of_absent h, List.map_nil]
  | cons p ps ih =>
    obtain ⟨first, rest⟩ := Bool.and_eq_true_iff.mp plain
    rw [List.flatMap_cons, List.cons_append, splitChars_append h, ih (Piece.not_mem_body first) rest,
      List.map_cons]

theorem elements_render (l : Listing) : elements (render l) = (pieces l).map Piece.element := by
  have bodies : (render l).toList = [] ++ (pieces l).flatMap fun p => '<' :: p.body := by
    rw [← written_pieces, String.toList_join, List.flatMap_map]
    exact congrArg (List.flatMap · (pieces l)) (funext Piece.toList_written)
  rw [elements, bodies, splitChars_bodies List.not_mem_nil (plain_pieces l), List.tail_cons,
    List.map_map]
  exact List.map_congr_left fun p mem => element_body (List.all_eq_true.mp (plain_pieces l) p mem)

theorem tags_render (l : Listing) :
    tags (render l) = (template l.gauges.size l.counters.size).map Piece.tag := by
  rw [tags, elements_render, ← erase_pieces, List.map_map, List.map_map]
  rfl

/-! ### Reading the page -/

def unescape : List Char → List Char
  | '&' :: 'a' :: 'm' :: 'p' :: ';' :: cs => '&' :: unescape cs
  | '&' :: 'l' :: 't' :: ';' :: cs => '<' :: unescape cs
  | '&' :: 'g' :: 't' :: ';' :: cs => '>' :: unescape cs
  | '&' :: 'q' :: 'u' :: 'o' :: 't' :: ';' :: cs => '"' :: unescape cs
  | '&' :: '#' :: '3' :: '9' :: ';' :: cs => '\'' :: unescape cs
  | c :: cs => c :: unescape cs
  | [] => []

theorem unescape_cons {c : Char} (h : c ≠ '&') (cs : List Char) : unescape (c :: cs) = c :: unescape cs := by
  rw [unescape.eq_def]
  split <;> simp_all

theorem unescape_escapeChar (c : Char) (cs : List Char) :
    unescape (escapeChar c ++ cs) = c :: unescape cs := by
  unfold escapeChar
  split
  case h_6 _ amp _ _ _ _ => exact unescape_cons amp cs
  all_goals rfl

def textOf (cell : String) : String := String.ofList (unescape cell.toList)

theorem textOf_escape (s : String) : textOf (escape s) = s := by
  have back (cs : List Char) : unescape (cs.flatMap escapeChar) = cs := by
    induction cs with
    | nil => rfl
    | cons c cs ih => rw [List.flatMap_cons, unescape_escapeChar, ih]
  rw [textOf, escape, String.toList_ofList, back, String.ofList_toList]

example : textOf "a&lt;script&gt; &amp;lt;" = "a<script> &lt;" := by decide +kernel

/-- The cells of every row of every table, with the rows and cells before these elements. -/
def tablesFrom (rows : List (List String)) (cells : List String) :
    List (String × String) → List (List (List String))
  | [] => []
  | (tag, text) :: es =>
    if tag = "td" then tablesFrom rows (cells ++ [text]) es
    else if tag = "/tr" then tablesFrom (rows ++ [cells]) [] es
    else if tag = "/table" then rows :: tablesFrom [] [] es
    else tablesFrom rows cells es

def pair? : List String → Option (String × String)
  | [name, value] => some (textOf name, textOf value)
  | _ => none

def entries? : List (List String) → Option (List (String × String))
  | [["no metrics"]] => some []
  | rows => rows.mapM pair?

/-- The names and values in the two tables of a page. -/
def read? (page : String) : Option (List (String × String) × List (String × String)) :=
  match tablesFrom [] [] (elements page) with
  | [gauges, counters] => do return (← entries? gauges, ← entries? counters)
  | _ => none

def cellsOf : List (String × String) → List (List String)
  | [] => [["no metrics"]]
  | e :: entries => (e :: entries).map fun e => [escape e.1, escape e.2]

theorem entries?_cellsOf (entries : List (String × String)) : entries? (cellsOf entries) = some entries := by
  have pair (e : String × String) : pair? [escape e.1, escape e.2] = some e := by
    rw [pair?, textOf_escape, textOf_escape]
  have each : (entries.map fun e => [escape e.1, escape e.2]).mapM pair? = some entries := by
    induction entries with
    | nil => rfl
    | cons e entries ih => simp [List.mapM_cons, pair, ih]
  cases entries with
  | nil => rfl
  | cons e entries =>
    rw [cellsOf, entries?]
    · exact each
    · -- A row with a name and a value is not the row of an empty table, whatever the name is.
      simp

theorem tablesFrom_row (rows : List (List String)) (e : String × String) (es : List (String × String)) :
    tablesFrom rows [] ((rowPieces e).map Piece.element ++ es) =
      tablesFrom (rows ++ [[escape e.1, escape e.2]]) [] es := by
  simp [rowPieces, Piece.element, Text.written, tablesFrom]

theorem tablesFrom_flatMap (rows : List (List String)) (entries es : List (String × String)) :
    tablesFrom rows [] ((entries.flatMap rowPieces).map Piece.element ++ es) =
      tablesFrom (rows ++ entries.map fun e => [escape e.1, escape e.2]) [] es := by
  induction entries generalizing rows with
  | nil => simp
  | cons e entries ih =>
    rw [List.flatMap_cons, List.map_append, List.append_assoc, tablesFrom_row, ih, List.map_cons,
      List.append_assoc, List.singleton_append]

theorem tablesFrom_rows (entries es : List (String × String)) :
    tablesFrom [] [] ((rowsPieces entries).map Piece.element ++ es) =
      tablesFrom (cellsOf entries) [] es := by
  cases entries with
  | nil => simp [rowsPieces, Piece.element, Text.written, tablesFrom, cellsOf]
  | cons e entries => exact tablesFrom_flatMap [] (e :: entries) es

theorem tablesFrom_table (title : String) (entries es : List (String × String)) :
    tablesFrom [] [] ((tablePieces title entries).map Piece.element ++ es) =
      cellsOf entries :: tablesFrom [] [] es := by
  simp [tablePieces, Piece.element, tablesFrom, tablesFrom_rows]

theorem tablesFrom_elements (l : Listing) : tablesFrom [] [] (elements (render l)) =
    [cellsOf l.gauges.toList, cellsOf l.counters.toList] := by
  have head (es : List (String × String)) :
      tablesFrom [] [] (headPieces.map Piece.element ++ es) = tablesFrom [] [] es := by
    simp [headPieces, Piece.element, tablesFrom]
  have tail : tablesFrom [] [] (tailPieces.map Piece.element) = [] := by
    simp [tailPieces, Piece.element, tablesFrom]
  simp only [elements_render, pieces, layout, List.map_append, List.append_assoc]
  rw [head, tablesFrom_table, tablesFrom_table, tail]

theorem read?_render (l : Listing) : read? (render l) = some (l.gauges.toList, l.counters.toList) := by
  rw [read?, tablesFrom_elements]
  simp [entries?_cellsOf]

theorem render_injective : Function.Injective render := by
  intro l k same
  have read : some (l.gauges.toList, l.counters.toList) = some (k.gauges.toList, k.counters.toList) := by
    rw [← read?_render, ← read?_render, same]
  obtain ⟨gauges, counters⟩ := Prod.mk.inj (Option.some.inj read)
  cases l
  cases k
  rw [Listing.mk.injEq]
  exact ⟨Std.ExtTreeMap.toList_inj.mp gauges, Std.ExtTreeMap.toList_inj.mp counters⟩

/-- The markup of a page is its own, whatever names and values it shows. They add no delimiter and no tag,
every ampersand in them begins an entity, and they are read back from the page in their order; so no two
listings have the same page. -/
theorem metrics_keep_markup (l : Listing) :
    (letters l).map Letter.char = (render l).toList ∧
    (pieces l).map Piece.erase = template l.gauges.size l.counters.size ∧
    (∀ c ∈ delimiters, Letter.told c ∉ letters l) ∧
    tags (render l) = (template l.gauges.size l.counters.size).map Piece.tag ∧
    Entitled (letters l) ∧
    read? (render l) = some (l.gauges.toList, l.counters.toList) ∧
    ∀ k, render k = render l → k = l :=
  ⟨char_letters l, erase_pieces l, fun _ h => told_not_mem_letters h, tags_render l, entitled_letters l,
    read?_render l, fun _ same => render_injective same⟩

end Telemetry.Server.Page
