import Webserver.Http.Messages
import Webserver.Library.Regex

namespace Webserver
namespace Markdown

/-!
# The tokens of the Markdown converter

The converter takes a document apart into a tree of tokens and lets every token
write itself as HTML.  The classes that hold a text differ in what they put around
it, in the characters that they encode and in whether their text can contain
markup; they are one constructor with a kind.

An emphasis marker points to the marker it has been matched with.  Both carry the
same number, so the number stands for the pointer.
-/

def digits : CharSet := ⟨false, [], [('0', '9')]⟩

def hexDigits : CharSet := ⟨false, [], [('0', '9'), ('a', 'f'), ('A', 'F')]⟩

def alphanumerics : CharSet := ⟨false, [], [('a', 'z'), ('A', 'Z'), ('0', '9')]⟩

def space : Regex := .word [' ']

def anything : Regex := .one .any

/-! ## Encoding -/

structure EncodingFlags where
  amps : Bool
  doubleAmps : Bool
  angles : Bool
  quotes : Bool
deriving DecidableEq

namespace EncodingFlags

/-- `0`. -/
def none : EncodingFlags := ⟨false, false, false, false⟩

/-- `cAmps|cAngles`. -/
def tag : EncodingFlags := ⟨true, false, true, false⟩

/-- `cAmps|cAngles|cQuotes`. -/
def prose : EncodingFlags := ⟨true, false, true, true⟩

/-- `cDoubleAmps|cAngles|cQuotes`. -/
def code : EncodingFlags := ⟨false, true, true, true⟩

/-- `cQuotes|cAmps`. -/
def attribute_ : EncodingFlags := ⟨true, false, false, true⟩

end EncodingFlags

/-- `^(&amp;)|(&#[0-9]{1,3};)|(&#[xX][0-9a-fA-F]{1,2};)`.  The anchor belongs to the
first alternative only. -/
def cIgnore : Regex :=
  .alt (.lineStart ++ .group 1 (.word "&amp;".toList))
    (.alt (.group 2 (.word "&#".toList ++ .one digits ++ .upTo 2 (.one digits) ++ .word [';']))
      (.group 3 (.word "&#".toList ++ .one (.oneOf ['x', 'X']) ++ .one hexDigits ++
        .upTo 1 (.one hexDigits) ++ .word [';'])))

def encodeString (flags : EncodingFlags) : Text -> Text
  | [] => []
  | c :: rest =>
      (if c == '&' && flags.amps then
        if (cIgnore.search (c :: rest)).isSome then [c] else "&amp;".toList
      else if c == '&' && flags.doubleAmps then "&amp;".toList
      else if c == '<' && flags.angles then "&lt;".toList
      else if c == '>' && flags.angles then "&gt;".toList
      else if c == '"' && flags.quotes then "&quot;".toList
      else [c]) ++ encodeString flags rest

/-! ## Characters, addresses and tags -/

def cEscapedCharacters : Text := "\\`*_\x7b\x7d[]()#+-.!>".toList

def isEscapedCharacter (c : Char) : Option Nat := cEscapedCharacters.findIdx? (· == c)

def escapedCharacter (index : Nat) : Except Fault Char :=
  match cEscapedCharacters[index]? with
  | some c => .ok c
  -- The character behind the last one of a `std::string` is a NUL.
  | none => if index = cEscapedCharacters.length then .ok '\x00' else .error .undefinedBehavior

def schemes : List Text :=
  ["http://".toList, "https://".toList, "ftp://".toList, "ftps://".toList, "file://".toList,
    "www.".toList, "ftp.".toList]

def looksLikeUrl (str : Text) : Bool :=
  -- The text is compared as a C string, which ends at its first NUL.
  schemes.any (fun scheme => scheme.isPrefixOf (cString str))

def notValidNameCharacter (c : Char) : Bool :=
  !(c.isAlphanum || c == '.' || c == '_' || c == '%' || c == '-' || c == '+')

/-- `c & 0x80`. -/
def hasHighBit (c : Char) : Bool := 128 ≤ c.toNat

def notValidSiteCharacter (c : Char) : Bool :=
  !(c.isAlphanum || c == '.' || c == '_' || c == '%' || c == '-' || hasHighBit c)

def isNotAlpha (c : Char) : Bool := !c.isAlpha

def emailEncodeFrom (inHex : Bool) : Text -> Text
  | [] => []
  | c :: rest =>
      (if hasHighBit c then [c]
      else if inHex then "&#x".toList ++ Nat.toDigits 16 c.toNat ++ [';']
      else "&#".toList ++ Nat.toDigits 10 c.toNat ++ [';']) ++ emailEncodeFrom (!inHex) rest

def emailEncode (src : Text) : Text := emailEncodeFrom false src

def looksLikeEmailAddress (str : Text) : Bool :=
  let name := str.takeWhile (fun c => !notValidNameCharacter c)
  match str.dropWhile (fun c => !notValidNameCharacter c) with
  | '@' :: site =>
      name != [] && site.all (fun c => !notValidSiteCharacter c) &&
        (match str.reverse.dropWhile (fun c => !isNotAlpha c) with
        | '.' :: _ =>
            let count := (str.reverse.takeWhile (fun c => !isNotAlpha c)).length
            2 ≤ count && count ≤ 4
        | _ => false)
  | _ => false

def cOtherTagInit : List Text :=
  ["title/", "base", "link", "basefont", "script/", "style/", "object/", "meta", "em/", "strong/",
    "q/", "cite/", "dfn/", "abbr/", "acronym/", "code/", "samp/", "kbd/", "var/", "sub/", "sup/",
    "del/", "ins/", "isindex", "a/", "img", "br", "map/", "area", "object/", "param", "applet/",
    "span/"].map String.toList

def cBlockTagInit : List Text :=
  ["p/", "blockquote/", "hr", "h1/", "h2/", "h3/", "h4/", "h5/", "h6/", "dl/", "dt/", "dd/", "ol/",
    "ul/", "li/", "dir/", "menu/", "table/", "tr/", "th/", "td/", "col", "colgroup/", "caption/",
    "thead/", "tbody/", "tfoot/", "form/", "select/", "option", "input", "label/", "textarea/",
    "div/", "pre/", "address/", "iframe/", "frame/", "frameset/", "noframes/", "center/", "b/",
    "i/", "big/", "small/", "strike/", "tt/", "u/", "font/", "ins/", "del/"].map String.toList

/-- `initTag`: a slash at the end says that the tag can be closed. -/
def initTag (init : List Text) : List Text :=
  init.map (fun tag => if tag.getLast? = some '/' then tag.dropLast else tag)

def otherTags : List Text := initTag cOtherTagInit

def blockTags : List Text := initTag cBlockTagInit

def isValidTag (tag : Text) (nonBlockFirst : Bool) : Nat :=
  if nonBlockFirst then
    if tag ∈ otherTags then 1 else if tag ∈ blockTags then 2 else 0
  else
    if tag ∈ blockTags then 2 else if tag ∈ otherTags then 1 else 0

/-- A run of spaces becomes one space. -/
def cleanTextLinkRef (ref : Text) : Text :=
  ref.foldl (fun r c =>
    if c = ' ' then if r = [] ∨ r.getLast? ≠ some ' ' then r ++ [' '] else r else r ++ [c]) []

/-! ## Tokens -/

/-- The classes derived from `TextHolder`, and `TextHolder` itself. -/
inductive TextKind where
  | textHolder (canContainMarkup : Bool) (encodingFlags : EncodingFlags)
  | rawText (canContainMarkup : Bool)
  | htmlTag
  | htmlAnchorTag
  | inlineHtmlContents
  | inlineHtmlComment
  | codeBlock
  | codeSpan
  | header (level : Nat)
  | blankLine
deriving DecidableEq

/-- `Container` and the classes derived from it. -/
inductive ContainerKind where
  | container
  | inlineHtmlBlock
  | listItem (inhibitParagraphs : Bool)
  | unorderedList
  | orderedList
  | blockQuote
  | paragraph
deriving DecidableEq

structure BoldOrItalicMarker where
  openMarker : Bool
  tokenCharacter : Char
  size : Nat
  /-- The number that the marker shares with the marker it is matched with. -/
  matched : Option Nat
  cannotMatch : Bool
  disabled : Bool
deriving DecidableEq

inductive Token where
  | text (kind : TextKind) (text : Text)
  | escapedCharacter (c : Char)
  | container (kind : ContainerKind) (subTokens : List Token)
  | boldOrItalicMarker (marker : BoldOrItalicMarker)
  | image (altText url title : Text)

namespace BoldOrItalicMarker

/-- A marker as it is read. -/
def fresh (openMarker : Bool) (tokenCharacter : Char) (size : Nat) : BoldOrItalicMarker :=
  ⟨openMarker, tokenCharacter, size, none, false, false⟩

def disable (marker : BoldOrItalicMarker) : BoldOrItalicMarker :=
  { marker with cannotMatch := true, disabled := true }

def isUnmatchedOpenMarker (marker : BoldOrItalicMarker) : Bool :=
  marker.openMarker && marker.matched.isNone && !marker.cannotMatch

def isUnmatchedCloseMarker (marker : BoldOrItalicMarker) : Bool :=
  !marker.openMarker && marker.matched.isNone && !marker.cannotMatch

def openTag (size : Nat) : Text :=
  if size = 1 then "<em>".toList else if size = 2 then "<strong>".toList else "<strong><em>".toList

def closeTag (size : Nat) : Text :=
  if size = 1 then "</em>".toList else if size = 2 then "</strong>".toList
  else "</em></strong>".toList

def writeAsHtml (marker : BoldOrItalicMarker) : Text :=
  if marker.disabled then []
  else match marker.matched with
    | some _ => if marker.openMarker then openTag marker.size else closeTag marker.size
    | none => List.replicate marker.size marker.tokenCharacter

end BoldOrItalicMarker

namespace TextKind

def canContainMarkup : TextKind -> Bool
  | textHolder canContainMarkup _ => canContainMarkup
  | rawText canContainMarkup => canContainMarkup
  | header _ => true
  | _ => false

def encodingFlags : TextKind -> EncodingFlags
  | textHolder _ flags => flags
  | rawText _ => .prose
  | htmlTag => .tag
  | htmlAnchorTag => .none
  | inlineHtmlContents => .tag
  | inlineHtmlComment => .none
  | codeBlock => .code
  | codeSpan => .code
  | header _ => .prose
  | blankLine => .none

/-- What is written in front of the text. -/
def preWrite : TextKind -> Text
  | htmlTag => ['<']
  | codeBlock => "<pre><code>".toList
  | codeSpan => "<code>".toList
  | header level => "<h".toList ++ Nat.toDigits 10 level ++ ['>']
  | _ => []

/-- What is written behind the text. -/
def postWrite : TextKind -> Text
  | htmlTag => ['>']
  | codeBlock => "</code></pre>\n\n".toList
  | codeSpan => "</code>".toList
  | header level => "</h".toList ++ Nat.toDigits 10 level ++ ">\n".toList
  | _ => []

def writeAsHtml (kind : TextKind) (text : Text) : Text :=
  kind.preWrite ++
    (if kind.encodingFlags ≠ .none then encodeString kind.encodingFlags text else text) ++
    kind.postWrite

end TextKind

namespace ContainerKind

def inhibitParagraphs : ContainerKind -> Bool
  | inlineHtmlBlock => true
  | listItem inhibitParagraphs => inhibitParagraphs
  | _ => false

def preWrite : ContainerKind -> Text
  | container => []
  | inlineHtmlBlock => []
  | listItem _ => "<li>".toList
  | unorderedList => "\n<ul>\n".toList
  | orderedList => "<ol>\n".toList
  | blockQuote => "<blockquote>\n".toList
  | paragraph => "<p>".toList

def postWrite : ContainerKind -> Text
  | container => []
  | inlineHtmlBlock => []
  | listItem _ => "</li>\n".toList
  | unorderedList => "</ul>\n\n".toList
  | orderedList => "</ol>\n\n".toList
  | blockQuote => "\n</blockquote>\n".toList
  | paragraph => "</p>\n\n".toList

end ContainerKind

namespace Token

/-- A `RawText` as most of them are built. -/
abbrev rawText (text : Text) : Token := .text (.rawText true) text

/-- `HtmlAnchorTag(url, title)`. -/
def htmlAnchorTag (url title : Text) : Token :=
  .text .htmlAnchorTag ("<a href=\"".toList ++ encodeString .attribute_ url ++ "\"".toList ++
    (if title = [] then []
    else " title=\"".toList ++ encodeString .attribute_ title ++ "\"".toList) ++ ">".toList)

/-- `text()`. -/
def text? : Token -> Option Text
  | .text _ content => some content
  | _ => none

def canContainMarkup : Token -> Bool
  | .text kind _ => kind.canContainMarkup
  | _ => false

def isBlankLine : Token -> Bool
  | .text kind _ => kind == .blankLine
  | .container kind _ => kind == .inlineHtmlBlock
  | _ => false

def isContainer : Token -> Bool
  | .container _ _ => true
  | _ => false

def inhibitParagraphs : Token -> Bool
  | .text (.header _) _ => true
  | .container kind _ => kind.inhibitParagraphs
  | _ => false

mutual

def writeAsHtml : Token -> Text
  | .text kind content => kind.writeAsHtml content
  | .escapedCharacter c => [c]
  | .container kind subTokens => kind.preWrite ++ writeAllAsHtml subTokens ++ kind.postWrite
  | .boldOrItalicMarker marker => marker.writeAsHtml
  | .image altText url title =>
      "<img src=\"".toList ++ url ++ "\" alt=\"".toList ++ altText ++ "\"".toList ++
        (if title = [] then [] else " title=\"".toList ++ title ++ "\"".toList) ++ "/>".toList

def writeAllAsHtml : List Token -> Text
  | [] => []
  | token :: rest => token.writeAsHtml ++ writeAllAsHtml rest

end

def writeAsOriginal : Token -> Text
  | .escapedCharacter c => ['\\', c]
  | .text .codeSpan content => '`' :: content ++ ['`']
  | token => token.writeAsHtml

end Token

end Markdown
end Webserver
