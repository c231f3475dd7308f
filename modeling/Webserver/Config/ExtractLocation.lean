import Webserver.Config.Syntax
import Webserver.Library.Decimals
import Webserver.Library.Streams

namespace Webserver
namespace Config

/-!
# `NginxConfigParser::ExtractLocation`

The file is read a second time, by a loop over its characters that knows neither
tokens nor blocks.  It keeps a few flags and names in the variables of the
function.  Its inner loops do not look at the end of the file, so they may go on
forever; every loop has a limit on its rounds here, and the result is `none`
when a limit is not enough.
-/

/-- The variables of the function. -/
structure LocationScan where
  insideBrace : Bool
  validLocation : Bool
  pathName : Text
  handlerName : Text
  dirName : Text
  indexName : Text
  locInfo : LocationInfo

namespace LocationScan

def initial : LocationScan := ⟨false, false, [], [], [], [], .empty⟩

/-- The characters of a path. -/
def inPath (c : Char) : Bool := !isspace c

/-- The characters skipped before a directory. -/
def beforeDir (c : Char) : Bool := isspace c || c == '"'

/-- The characters of a directory. -/
def inDir (c : Char) : Bool := !(c == ';' || isspace c || c == '"' || c == '}')

/-- The characters of an index name. -/
def inIndex (c : Char) : Bool := !(c == ';' || isspace c || c == '}')

open InputStream (getWhile whileChar append clear)

/-- `case '/'`. -/
def readPath (limit : Nat) (scan : LocationScan) (stream : InputStream) :
    Option (LocationScan × InputStream) :=
  if scan.validLocation = true then do
    let (readChar, pathName, stream) ← getWhile inPath append limit ['/'] stream
    let (_, handlerName, stream) ←
      whileChar isspace clear limit readChar scan.handlerName stream
    let (_, handlerName, stream) ←
      getWhile Char.isAlphanum append limit handlerName stream.unget
    some ({ scan with
        validLocation := false
        pathName := pathName
        handlerName := handlerName
        locInfo := { scan.locInfo with
          pathToHandler := scan.locInfo.pathToHandler.assign pathName handlerName } },
      stream.unget)
  else some (scan, stream)

/-- `case 'l'` and `case 'L'`. -/
def readLocation (scan : LocationScan) (stream : InputStream) : LocationScan × InputStream :=
  let (found, stream) := stream.expect "ocation ".toList
  if found = true then ({ scan with validLocation := true }, stream) else (scan, stream)

/-- `case 'r'` and `case 'R'`. -/
def readRoot (limit : Nat) (scan : LocationScan) (stream : InputStream) :
    Option (LocationScan × InputStream) :=
  if scan.insideBrace = true ∧ scan.pathName ≠ [] then do
    let (found, stream) := stream.expect "oot ".toList
    if found = true then
      let (_, dirName, stream) ← getWhile beforeDir clear limit [] stream
      let (_, dirName, stream) ← getWhile inDir append limit dirName stream.unget
      some ({ scan with
          dirName := dirName
          locInfo := { scan.locInfo with
            pathToRoot := scan.locInfo.pathToRoot.assign scan.pathName dirName } },
        stream.unget)
    else some ({ scan with dirName := [] }, stream)
  else some (scan, stream)

/-- `case 'i'` and `case 'I'`. -/
def readIndex (limit : Nat) (scan : LocationScan) (stream : InputStream) :
    Option (LocationScan × InputStream) :=
  if scan.insideBrace = true ∧ scan.pathName ≠ [] then do
    let (found, stream) := stream.expect "ndex ".toList
    if found = true then
      let (_, indexName, stream) ← getWhile isspace clear limit scan.indexName stream
      let (_, indexName, stream) ← getWhile inIndex append limit indexName stream.unget
      some ({ scan with
          indexName := indexName
          locInfo := { scan.locInfo with
            pathToIndex := scan.locInfo.pathToIndex.assign scan.pathName indexName } },
        stream)
    else some (scan, stream)
  else some (scan, stream)

/-- What the loop does with a character. -/
def readChar (limit : Nat) (scan : LocationScan) (c : Char) (stream : InputStream) :
    Option (LocationScan × InputStream) :=
  if c = '{' then some ({ scan with insideBrace := true }, stream)
  else if c = '}' then some ({ scan with insideBrace := false }, stream)
  else if c = '/' then scan.readPath limit stream
  else if c = 'l' ∨ c = 'L' then some (scan.readLocation stream)
  else if c = 'r' ∨ c = 'R' then scan.readRoot limit stream
  else if c = 'i' ∨ c = 'I' then scan.readIndex limit stream
  else some (scan, stream)

/-- The loop over the file, with a limit for its rounds and one for those of each
inner loop. -/
def run (limit : Nat) : Nat -> LocationScan -> InputStream -> Option LocationInfo
  | 0, _, _ => none
  | rounds + 1, scan, stream =>
      let (c, stream) := stream.get
      if stream.good = false then some scan.locInfo
      else do
        let (scan, stream) ← scan.readChar limit c stream
        run limit rounds scan stream

end LocationScan

/-- `ExtractLocation` on a file with the given text. -/
def extractLocation (limit : Nat) (text : Text) : Option LocationInfo :=
  LocationScan.run limit limit .initial (.opened text)

end Config
end Webserver
