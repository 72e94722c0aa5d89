import EasyWebServer.Lib.CrlfScan
import EasyWebServer.Lib.RequestLine

/-!
# HTTP request messages

`Request` is an HTTP/1.1 request with its framing: a method and a target, header fields, and a body
whose byte count the one `Content-Length` field gives.  `encode` is the text of a message, the lines
of its head and the body.

`Headers` is what a reader keeps of the header lines, and `Headers.line` what one line changes.
The lemmas do three things:

* read the request line back (`Request.wellFormed`);
* read a header line as the field it is (`Headers.line_field`);
* read all header lines of a message (`Request.headers_eq`).
-/

namespace EasyWebServer

namespace Http

open CString CInt RequestLine

/-! ## Messages -/

/-- A nonempty text without blanks, on one line. -/
structure Token (s : Bytes) : Prop where
  ne_nil : s ≠ []
  word : Word s
  line : OneLine s
  no_nul : NUL ∉ s

instance (s : Bytes) : Decidable (Token s) :=
  decidable_of_iff (s ≠ [] ∧ Word s ∧ OneLine s ∧ NUL ∉ s)
    ⟨fun h => ⟨h.1, h.2.1, h.2.2.1, h.2.2.2⟩, fun h => ⟨h.1, h.2, h.3, h.4⟩⟩

/-- What the name and the value of a field are. -/
structure FieldText (name value : Bytes) : Prop where
  name_ne : name ≠ []
  name_line : OneLine name
  name_colon : colon ∉ name
  value_line : OneLine value
  name_no_nul : NUL ∉ name
  value_no_nul : NUL ∉ value

instance (name value : Bytes) : Decidable (FieldText name value) :=
  decidable_of_iff (name ≠ [] ∧ OneLine name ∧ colon ∉ name ∧ OneLine value ∧ NUL ∉ name ∧
      NUL ∉ value)
    ⟨fun h => ⟨h.1, h.2.1, h.2.2.1, h.2.2.2.1, h.2.2.2.2.1, h.2.2.2.2.2⟩,
      fun h => ⟨h.1, h.2, h.3, h.4, h.5, h.6⟩⟩

/-- The field of a name and a value. -/
def FieldText.field {name value : Bytes} (h : FieldText name value) : Field :=
  ⟨name, value, h.name_ne, h.name_line, h.name_colon, h.value_line⟩

/-- The text behind the blanks in front of it. -/
def skipBlanks (s : Bytes) : Bytes := s.dropWhile (fun b => blanks.contains b)

namespace Field

/-- The line of a field, without its end. -/
def line (f : Field) : Bytes := f.name ++ colon :: f.value

/-- A field is a C string. -/
def NoNul (f : Field) : Prop := NUL ∉ f.name ∧ NUL ∉ f.value

instance (f : Field) : Decidable f.NoNul := inferInstanceAs (Decidable (_ ∧ _))

/-- The field has the name.  Names are compared without regard to case. -/
def Named (f : Field) (name : Bytes) : Prop := EqualFold f.name name

instance (f : Field) (name : Bytes) : Decidable (f.Named name) :=
  inferInstanceAs (Decidable (EqualFold _ _))

/-- The value behind its blanks. -/
def content (f : Field) : Bytes := skipBlanks f.value

end Field

theorem FieldText.no_nul {name value : Bytes} (h : FieldText name value) : h.field.NoNul :=
  ⟨h.name_no_nul, h.value_no_nul⟩

/-- The values of the fields with the name. -/
def contentsOf (name : Bytes) (fields : List Field) : List Bytes :=
  (fields.filter (fun f => f.Named name)).map Field.content

/-- A framed request. -/
structure Request where
  method : Bytes
  target : Bytes
  fields : List Field
  body : Bytes
  method_token : Token method
  target_token : Token target
  fields_text : ∀ f ∈ fields, f.NoNul
  framed : contentsOf (ascii "Content-Length") fields = [decimalNat body.length] ∨
    contentsOf (ascii "Content-Length") fields = [] ∧ body = []

namespace Request

/-- The request line. -/
def line (r : Request) : Bytes := r.method ++ [space] ++ (r.target ++ [space] ++ version)

/-- The lines of the head.  The last is blank. -/
def lines (r : Request) : List Bytes := r.line :: r.fields.map Field.line ++ [[]]

/-- The text of the head. -/
def head (r : Request) : Bytes := CrlfScan.text r.lines

/-- The text of a request. -/
def encode (r : Request) : Bytes := r.head ++ r.body

/-- The client asks for a persistent connection. -/
def keepAlive (r : Request) : Bool :=
  (contentsOf (ascii "Connection") r.fields).any (fun v => strcasecmp v (ascii "keep-alive"))

/-- The host that the last `Host` field names. -/
def host (r : Request) : Option Bytes := (contentsOf (ascii "Host") r.fields).getLast?

end Request

/-! ## The request line -/

theorem Request.wellFormed (r : Request) : WellFormed r.method r.line r.target := by
  refine ⟨r.method, [space], r.target ++ [space] ++ version, rfl, rfl, by decide, by decide, ?_⟩
  exact ⟨[space], version, rfl, r.target_token.ne_nil, r.target_token.word, by decide, by decide,
    rfl⟩

theorem oneLine_append {s t : Bytes} (hs : OneLine s) (ht : OneLine t) : OneLine (s ++ t) :=
  List.forall_mem_append.mpr ⟨hs, ht⟩

theorem Request.oneLine_line (r : Request) : OneLine r.line := by
  have hspace : OneLine [space] := by decide
  have hversion : OneLine version := by decide
  exact oneLine_append (oneLine_append r.method_token.line hspace)
    (oneLine_append (oneLine_append r.target_token.line hspace) hversion)

theorem Request.nul_notMem_line (r : Request) : NUL ∉ r.line := by
  have hspace : NUL ∉ [space] := by decide
  have hversion : NUL ∉ version := by decide
  simp only [Request.line, List.mem_append, not_or]
  exact ⟨⟨r.method_token.no_nul, hspace⟩, ⟨r.target_token.no_nul, hspace⟩, hversion⟩

/-! ## The header lines -/

namespace Field

variable {f : Field}

theorem oneLine_line (f : Field) : OneLine f.line :=
  oneLine_append f.name_line (List.forall_mem_cons.mpr ⟨by decide, f.value_line⟩)

theorem NoNul.line (h : f.NoNul) : NUL ∉ f.line := by
  have hcolon : NUL ≠ colon := by decide
  simp only [Field.line, List.mem_append, List.mem_cons, not_or]
  exact ⟨h.1, hcolon, h.2⟩

theorem line_ne_nil (f : Field) : f.line ≠ [] := by
  rw [Field.line]
  exact List.append_ne_nil_of_left_ne_nil f.name_ne _

end Field

theorem toLower_colon {b : UInt8} (h : toLower b = colon) : b = colon := by
  unfold toLower at h
  split at h
  · rename_i hrange
    have hlo := UInt8.le_iff_toNat_le.mp hrange.1
    have hhi := UInt8.le_iff_toNat_le.mp hrange.2
    have hsum := congrArg UInt8.toNat h
    rw [UInt8.toNat_add] at hsum
    simp only [colon, UInt8.reduceToNat] at hlo hhi hsum
    omega
  · exact h

theorem colon_notMem_map {s : Bytes} (h : colon ∉ s) : colon ∉ s.map toLower := by
  intro hmem
  obtain ⟨b, hb, hlower⟩ := List.mem_map.mp hmem
  exact h (toLower_colon hlower ▸ hb)

/-- The line of a field starts with a name and a colon exactly when that is its name. -/
theorem Field.startsFold_line {f : Field} {name : Bytes} (hname : colon ∉ name) :
    StartsFold f.line (name ++ [colon]) ↔ f.Named name := by
  have hlower : toLower colon = colon := by decide
  constructor
  · intro h
    have hline : f.line.map toLower = name.map toLower ++ colon ::
        (f.line.drop (name ++ [colon]).length).map toLower := by
      have hsplit := congrArg (List.map toLower)
        (List.take_append_drop (name ++ [colon]).length f.line)
      rw [List.map_append, h] at hsplit
      rw [← hsplit, List.map_append, List.map_singleton, hlower, List.append_assoc]
      rfl
    rw [Field.line, List.map_append, List.map_cons, hlower] at hline
    exact (append_cons_inj (colon_notMem_map f.name_colon) (colon_notMem_map hname) hline).1
  · intro h
    have hlen : f.name.length = name.length := by
      have hmap := congrArg List.length h
      rwa [List.length_map, List.length_map] at hmap
    have htake : f.line.take (name ++ [colon]).length = f.name ++ [colon] := by
      rw [List.length_append, ← hlen, Field.line, List.append_cons]
      exact List.take_left' (List.length_append ..)
    rw [StartsFold, htake, EqualFold, List.map_append, List.map_append, show
      f.name.map toLower = name.map toLower from h]

/-- What stands behind the name and the colon. -/
theorem Field.drop_line {f : Field} {name : Bytes} (h : f.Named name) :
    f.line.drop (name ++ [colon]).length = f.value := by
  have hlen : f.name.length = name.length := by
    have hmap := congrArg List.length h
    rwa [List.length_map, List.length_map] at hmap
  rw [List.length_append, ← hlen, Field.line, List.append_cons]
  exact List.drop_left' (List.length_append ..)

/-! ## Reading the header lines -/

/-- What a reader keeps of the header lines. -/
structure Headers where
  keepAlive : Bool
  contentLength : Int
  host : Option Bytes
  deriving DecidableEq, Repr

namespace Headers

/-- Before the first header line. -/
def start : Headers := ⟨false, 0, none⟩

/-- One header line. -/
def line (h : Headers) (l : Bytes) : Headers :=
  if strncasecmp l (ascii "Connection:") then
    if strcasecmp (skipBlanks (l.drop 11)) (ascii "keep-alive") then { h with keepAlive := true }
    else h
  else if strncasecmp l (ascii "Content-length:") then
    { h with contentLength := atoi (skipBlanks (l.drop 15)) }
  else if strncasecmp l (ascii "Host:") then { h with host := some (skipBlanks (l.drop 5)) }
  else h

/-- One field. -/
def field (h : Headers) (f : Field) : Headers :=
  if f.Named (ascii "Connection") then
    if strcasecmp f.content (ascii "keep-alive") then { h with keepAlive := true } else h
  else if f.Named (ascii "Content-Length") then { h with contentLength := atoi f.content }
  else if f.Named (ascii "Host") then { h with host := some f.content }
  else h

/-- A header line is read as its field. -/
theorem line_field (h : Headers) {f : Field} (hf : f.NoNul) : h.line f.line = h.field f := by
  have hself : cstr f.line = f.line := cstr_eq_self hf.line
  have hstarts : ∀ name, colon ∉ name →
      (strncasecmp f.line (name ++ [colon]) = true ↔ f.Named name) :=
    fun name hname => (strncasecmp_iff hself).trans (Field.startsFold_line hname)
  have hconnection := hstarts (ascii "Connection") (by decide)
  have hlength := hstarts (ascii "Content-length") (by decide)
  have hhost := hstarts (ascii "Host") (by decide)
  have hfold : f.Named (ascii "Content-length") ↔ f.Named (ascii "Content-Length") :=
    ⟨fun h => Eq.trans h (by decide), fun h => Eq.trans h (by decide)⟩
  have hdrop : ∀ {name : Bytes} {n : Nat}, f.Named name → (name ++ [colon]).length = n →
      skipBlanks (f.line.drop n) = f.content := by
    intro name n hname hn
    rw [← hn, Field.drop_line hname, Field.content]
  rw [Headers.line, Headers.field]
  by_cases h₁ : f.Named (ascii "Connection")
  · rw [if_pos (show strncasecmp f.line (ascii "Connection:") = true from hconnection.mpr h₁),
      if_pos h₁, hdrop h₁ (by decide)]
  · rw [if_neg (show ¬ strncasecmp f.line (ascii "Connection:") = true from
      fun h => h₁ (hconnection.mp h)), if_neg h₁]
    by_cases h₂ : f.Named (ascii "Content-Length")
    · rw [if_pos (show strncasecmp f.line (ascii "Content-length:") = true from
        hlength.mpr (hfold.mpr h₂)), if_pos h₂, hdrop h₂ (by decide)]
    · rw [if_neg (show ¬ strncasecmp f.line (ascii "Content-length:") = true from
        fun h => h₂ (hfold.mp (hlength.mp h))), if_neg h₂]
      by_cases h₃ : f.Named (ascii "Host")
      · rw [if_pos (show strncasecmp f.line (ascii "Host:") = true from hhost.mpr h₃),
          if_pos h₃, hdrop h₃ (by decide)]
      · rw [if_neg (show ¬ strncasecmp f.line (ascii "Host:") = true from
          fun h => h₃ (hhost.mp h)), if_neg h₃]

end Headers

/-! ## All header lines -/

theorem contentsOf_cons (name : Bytes) (f : Field) (fields : List Field) :
    contentsOf name (f :: fields) =
      if f.Named name then f.content :: contentsOf name fields else contentsOf name fields := by
  rw [contentsOf, List.filter_cons]
  by_cases h : f.Named name
  · rw [if_pos (decide_eq_true h), if_pos h]
    rfl
  · rw [if_neg (by rw [decide_eq_true_iff]; exact h), if_neg h]
    rfl

/-- A field has one of two names only. -/
theorem Field.Named.ne {f : Field} {name name' : Bytes} (h : f.Named name)
    (hne : ¬ EqualFold name name') : ¬ f.Named name' :=
  fun h' => hne (Eq.trans (Eq.symm h) h')

namespace Headers

/-- All fields: whether one asks to keep the connection, the last length and the last host. -/
theorem foldl_field (fields : List Field) (h : Headers) :
    fields.foldl field h =
      ⟨h.keepAlive || (contentsOf (ascii "Connection") fields).any
          (fun v => strcasecmp v (ascii "keep-alive")),
        (((contentsOf (ascii "Content-Length") fields).getLast?).map atoi).getD h.contentLength,
        (contentsOf (ascii "Host") fields).getLast?.or h.host⟩ := by
  induction fields generalizing h with
  | nil =>
      rw [List.foldl_nil]
      simp only [contentsOf, List.filter_nil, List.map_nil, List.any_nil, Bool.or_false,
        List.getLast?_nil, Option.map_none, Option.getD_none, Option.none_or]
  | cons f fields ih =>
      rw [List.foldl_cons, ih, contentsOf_cons, contentsOf_cons, contentsOf_cons, field]
      by_cases h₁ : f.Named (ascii "Connection")
      · rw [if_pos h₁, if_pos h₁, if_neg (h₁.ne (by decide)), if_neg (h₁.ne (by decide)),
          List.any_cons]
        split
        · rename_i hkeep
          rw [hkeep, Bool.true_or, Bool.or_true]
        · rename_i hkeep
          rw [Bool.not_eq_true] at hkeep
          rw [hkeep, Bool.false_or]
      · rw [if_neg h₁, if_neg h₁]
        by_cases h₂ : f.Named (ascii "Content-Length")
        · rw [if_pos h₂, if_pos h₂, if_neg (h₂.ne (by decide)), List.getLast?_cons]
          cases (contentsOf (ascii "Content-Length") fields).getLast? with
          | none => rfl
          | some v => rfl
        · rw [if_neg h₂, if_neg h₂]
          by_cases h₃ : f.Named (ascii "Host")
          · rw [if_pos h₃, if_pos h₃, List.getLast?_cons]
            cases (contentsOf (ascii "Host") fields).getLast? with
            | none => rfl
            | some v => rfl
          · rw [if_neg h₃, if_neg h₃]

end Headers

/-- What the head of a request says. -/
def Request.headers (r : Request) : Headers := ⟨r.keepAlive, r.body.length, r.host⟩

/-- A reader of the header lines of a request keeps what they say. -/
theorem Request.headers_eq (r : Request) (hlength : (r.body.length : Int) ≤ INT_MAX) :
    (r.fields.map Field.line).foldl Headers.line .start = r.headers := by
  have hline : ∀ (fields : List Field) (h : Headers), (∀ f ∈ fields, f.NoNul) →
      (fields.map Field.line).foldl Headers.line h = fields.foldl Headers.field h := by
    intro fields
    induction fields with
    | nil => exact fun h _ => rfl
    | cons f fields ih =>
        intro h hf
        rw [List.map_cons, List.foldl_cons, List.foldl_cons,
          h.line_field (hf f List.mem_cons_self)]
        exact ih _ (fun g hg => hf g (List.mem_cons_of_mem f hg))
  rw [hline r.fields .start r.fields_text, Headers.foldl_field, Request.headers,
    Request.keepAlive, Request.host]
  have hcontent : (((contentsOf (ascii "Content-Length") r.fields).getLast?).map atoi).getD 0 =
      (r.body.length : Int) := by
    rcases r.framed with hone | ⟨hnone, hbody⟩
    · rw [hone, List.getLast?_singleton, Option.map_some, Option.getD_some,
        atoi_decimalNat hlength]
    · rw [hnone, hbody]
      rfl
  rw [Headers.start, hcontent, Option.or_none, Bool.false_or]

end Http

end EasyWebServer
