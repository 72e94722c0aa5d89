import EasyWebServer.Lib.SqlLiteral
import EasyWebServer.Post.Request

/-!
# The INSERT statement

A registration builds its INSERT statement by putting quotes around the name and the
password.  `readInsert` is how a database reads such a statement: two string literals in
a fixed text, with nothing before and nothing behind it.

`readInsert_iff` says when it reads back what the request had sent.
-/

namespace EasyWebServer.Post

open CString

/-- Read an `INSERT INTO user(username, passwd) VALUES(L1, L2)`: what the two literals
denote. -/
def readInsert (sql : Bytes) : Option (Bytes × Bytes) :=
  Sql.readPair (ascii "INSERT INTO user(username, passwd) VALUES(") (ascii ", ") (ascii ")") sql

/-- The statement is the name and the password in quotes. -/
theorem sqlInsert_quoted {name password sql : Bytes} (h : sqlInsert name password = .ok sql) :
    sql = ascii "INSERT INTO user(username, passwd) VALUES(" ++ Sql.quoted name ++ ascii ", " ++
      Sql.quoted password ++ ascii ")" := by
  have hopen : ascii "'" = [Sql.quote] := by decide
  have hmiddle : ascii "', '" = [Sql.quote] ++ ascii ", " ++ [Sql.quote] := by decide
  have hclose : ascii "')" = [Sql.quote] ++ ascii ")" := by decide
  unfold sqlInsert at h
  simp only at h
  split_ifs at h
  cases h
  rw [hopen, hmiddle, hclose]
  simp only [Sql.quoted, List.append_assoc, List.cons_append, List.nil_append]

/-- The statement for a name and a password that fit is read back as they are exactly when
neither has a quote or a backslash. -/
theorem readInsert_iff {name password sql : Bytes} (hsql : sqlInsert name password = .ok sql) :
    readInsert sql = some (name, password) ↔ Sql.Plain name ∧ Sql.Plain password := by
  rw [sqlInsert_quoted hsql]
  exact Sql.readPair_quoted_iff (by decide) (by decide) (by decide)

/-- A registration as the page sends it. -/
theorem readInsert_bob :
    ∃ sql, extractCredentials (ascii "user=bob&password=secret" ++ [NUL]) =
        .ok (ascii "bob", ascii "secret") ∧
      sqlInsert (ascii "bob") (ascii "secret") = .ok sql ∧
      readInsert sql = some (ascii "bob", ascii "secret") :=
  ⟨_, by decide, rfl, (readInsert_iff rfl).mpr (by decide)⟩

/-- The quote in the name ends its literal early. -/
theorem not_readInsert_injection :
    ∃ name password sql,
      extractCredentials (ascii "user=o'brien&password=secret" ++ [NUL]) = .ok (name, password) ∧
        sqlInsert name password = .ok sql ∧ readInsert sql ≠ some (name, password) :=
  ⟨ascii "o'brien", ascii "secret", _, by decide, rfl, by decide⟩

end EasyWebServer.Post
