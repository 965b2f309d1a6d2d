import SynOSStudio.TextLines.Lines
import SynOSStudio.TextPasses.Passes

/-!
# Branding

How a package template becomes the text of a brand: the placeholders are filled in one after
another, and the product name is replaced behind sentinels for the literals that keep it.
-/

namespace BuildTools

open TextLines TextPasses

/-- The keys of the substitutions, in the order of the dictionary. -/
inductive SubstitutionKey
  | repoHost | mirror | version | base | suite | arch | repoUrl | repoEnabled
  | brandId | brandName | brandVendor | brandUrlHome | brandUrlSupport
  deriving DecidableEq

namespace SubstitutionKey

def all : List SubstitutionKey :=
  [repoHost, mirror, version, base, suite, arch, repoUrl, repoEnabled,
    brandId, brandName, brandVendor, brandUrlHome, brandUrlSupport]

def text : SubstitutionKey → String
  | repoHost => "REPO_HOST"
  | mirror => "MIRROR"
  | version => "VERSION"
  | base => "BASE"
  | suite => "SUITE"
  | arch => "ARCH"
  | repoUrl => "REPO_URL"
  | repoEnabled => "REPO_ENABLED"
  | brandId => "BRAND_ID"
  | brandName => "BRAND_NAME"
  | brandVendor => "BRAND_VENDOR"
  | brandUrlHome => "BRAND_URL_HOME"
  | brandUrlSupport => "BRAND_URL_SUPPORT"

def placeholder (key : SubstitutionKey) : Text := '$' :: '\x7b' :: (key.text.toList ++ ['\x7d'])

end SubstitutionKey

abbrev Substitutions := SubstitutionKey → Text

section Rendering

/-- `str.replace` -/
def replaceAll (pattern new text : Text) : Text :=
  if h : 0 < pattern.length then pass (literal pattern h) new text else text

/-- The texts between what was found. -/
def between : List (Piece Unit Char) → List Text
  | [] => [[]]
  | .plain c :: pieces => (between pieces).modifyHead (c :: ·)
  | .found _ _ :: pieces => [] :: between pieces

/-- `text.split("${")` -/
def splitOpenings (text : Text) : List Text :=
  between (scan (literal ['$', '\x7b'] (by decide)).find text)

def looksLikeOurs (key : Text) : Bool :=
  key ∈ ["VERSION", "BASE", "SUITE", "ARCH", "REPO_URL", "REPO_HOST", "REPO_ENABLED"].map
      String.toList ||
    ("BRAND_".toList.isPrefixOf key && 6 < key.length &&
      (key.drop 6).all fun c => ('A' ≤ c && c ≤ 'Z') || c = '_')

/-- The placeholders that are left over, sorted. -/
def leftover (text : Text) : List String :=
  ((((splitOpenings text).drop 1).filter ('\x7d' ∈ ·)).map fun segment =>
    segment.takeWhile (· ≠ '\x7d')).filter looksLikeOurs
    |>.map String.ofList |>.dedup |>.insertionSort (· ≤ ·)

def refusal (names : List String) : String :=
  "unresolved substitution(s): " ++
    ", ".intercalate (names.map fun name => "$\x7b" ++ name ++ "\x7d")

def renderText (subs : Substitutions) (text : Text) : Except String Text :=
  let text := SubstitutionKey.all.foldl (fun text key => replaceAll key.placeholder (subs key) text) text
  if leftover text ≠ [] then .error (refusal (leftover text)) else .ok text

end Rendering

section ProductName

def PRODUCT_NAME : Text := "SynOS".toList

def isWordChar (c : Char) : Bool :=
  ('A' ≤ c && c ≤ 'Z') || ('a' ≤ c && c ≤ 'z') || ('0' ≤ c && c ≤ '9') || c = '_'

def wordNext (c : Option Char) : Bool := c.any isWordChar

/-- `PRODUCT_RE`: the product name as a whole word. -/
def productRule : Rule Char where
  width := PRODUCT_NAME.length
  positive := by decide
  hit prev text := PRODUCT_NAME.isPrefixOf text && !wordNext prev &&
    !wordNext (text.drop PRODUCT_NAME.length).head?
  fits prev text h := by
    simp only [Bool.and_eq_true] at h
    exact (List.isPrefixOf_iff_prefix.mp h.1.1).length_le

def checkDisplayName (name : Text) : Except String Unit :=
  if strip name = [] then .error "brand display_name must not be empty"
  else if name.any fun c => c ∈ ['"', '\\', '\n', '\r', '\t'] then
    .error ("brand display_name " ++ String.ofList name ++
      " must not contain quotes, backslashes or line breaks")
  else .ok ()

/-- The literals of `brand-keep.txt`. -/
def brandKeepList : List Text := ["SynOS-Installer/".toList]

def sentinel (index : ℕ) : Text := '\x00' :: ("KEEP".toList ++ Nat.toDigits 10 index ++ ['\x00'])

/-- The text with sentinels for the literals that it holds, and the sentinels. -/
def hideKept (keep : List Text) (text : Text) : Text × List (Text × Text) :=
  keep.zipIdx.foldl (fun (text, sentinels) (literal, index) =>
    if literal <:+: text then
      (replaceAll literal (sentinel index) text, sentinels ++ [(sentinel index, literal)])
    else (text, sentinels)) (text, [])

def escapePo (display : Text) : Text :=
  replaceAll ['"'] ['\\', '"'] (replaceAll ['\\'] ['\\', '\\'] display)

def brandText (subs : Substitutions) (po : Bool) (text : Text) : Text :=
  let display := subs .brandName
  if display = PRODUCT_NAME ∨ ¬ PRODUCT_NAME <:+: text then text
  else
    let display := if po then escapePo display else display
    let (hidden, sentinels) := hideKept brandKeepList text
    sentinels.foldl (fun text (token, literal) => replaceAll token literal text)
      (pass productRule display hidden)

/-- What `build_package` makes of a template or a maintainer script. -/
def brandedText (subs : Substitutions) (text : Text) : Except String Text := do
  let text ← renderText subs text
  return brandText subs false text

end ProductName

end BuildTools
