import FieldQuery.Digest.Sha256
import FieldQuery.Text.Utf8

/-!
# Digests of texts

* `Digest` — a function from texts to short texts;
* `Digest.sha256` — the SHA-256 digest of the UTF-8 form, in hexadecimal digits.

What uses a digest takes it as an argument, and relies on nothing but that unlike texts have
unlike digests.
-/

namespace FieldQuery

/-- A function from texts to short texts. -/
abbrev Digest := String → String

/-- The SHA-256 digest. -/
def Digest.sha256 : Digest := fun s => Sha256.hex (Text.Utf8.ofString s)

end FieldQuery
