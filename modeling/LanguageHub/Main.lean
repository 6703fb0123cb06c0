import LanguageHub.MockServer.Basic

/-!
# The mock server as a program

Reads frames from the standard input, writes what the mock server sends to the standard
output, and appends what it gets to the file of its records.
-/

namespace LanguageHub.MockServer

def usage : String := "usage: mockls [--name NAME] [--sync none|full|incremental] [--sync-kind-only]
  [--no-save] [--save-include-text] [--without CAPABILITY] [--record FILE]
  [--response-delay MILLISECONDS] [--no-diagnostics] [--drop-after COUNT]
  [--hang-on METHOD] [--fail-on METHOD] [--exit-immediately]
  [--send-configuration-request]"

/-- Writes a message, and waits before a response. -/
def emit (settings : MockSettings) (stdout : IO.FS.Stream) (v : Json) : IO Unit := do
  if isResponse v then IO.sleep settings.responseDelay.toUInt32
  stdout.write ⟨(Frame.encode v.render).toArray⟩
  stdout.flush

def record (records : Option IO.FS.Handle) (v : Json) : IO Unit :=
  match records with
  | none => pure ()
  | some file => do
    file.putStrLn v.render
    file.flush

/-- Reads and answers until the input or the server ends; the exit status. -/
partial def serve (stdin stdout : IO.FS.Stream) (records : Option IO.FS.Handle) (s : MockServer)
    (buffer : Frame.Bytes) : IO UInt32 := do
  let bytes ← stdin.read 4096
  if bytes.isEmpty then return 0
  let run := s.run (buffer ++ bytes.data.toList)
  run.recorded.forM (record records)
  run.sent.forM (emit s.settings stdout)
  match run.ending with
  | some ending => return ending.status.toUInt32
  | none => serve stdin stdout records run.server run.rest

/-- The file of the records, when it can be opened. -/
def openRecord (path : Option String) : IO (Option IO.FS.Handle) := do
  match path with
  | none => pure none
  | some path =>
    try pure (some (← IO.FS.Handle.mk path .append))
    catch _ => pure none

def launch (settings : MockSettings) : IO UInt32 := do
  if settings.exitImmediately then return 1
  let records ← openRecord settings.record
  serve (← IO.getStdin) (← IO.getStdout) records (start settings) []

end LanguageHub.MockServer

open LanguageHub in
/-- Runs the mock server with the options of the command line. -/
def main (arguments : List String) : IO UInt32 :=
  match CommandLine.ofArguments arguments with
  | .run settings => MockServer.launch settings
  | .help => do
    IO.println MockServer.usage
    return 0
  | .misuse => do
    IO.eprintln MockServer.usage
    return CommandLine.misuseStatus.toUInt32
