import EventLoop.CommandLine.Arguments
import EventLoop.Text.Pad

/-!
# Help

What the program says about itself.  Each topic has a summary, a usage line and
sections of entries, whose descriptions stand in one column.
-/

namespace EventLoop.CommandLine

/-- A titled list of terms with their descriptions. -/
structure HelpSection where
  title : String
  entries : List (String × String)

/-- The help on a topic. -/
structure HelpPage where
  summary : String
  usage : String
  sections : List HelpSection

/-- The lines of a section. -/
def HelpSection.text (s : HelpSection) : String :=
  let width := s.entries.foldl (fun width entry => max width entry.1.length) 0
  s.title ++ ":\n" ++ String.join (s.entries.map fun (term, description) =>
    "  " ++ Text.padEnd width term ++ "  " ++ description ++ "\n")

/-- The text of a page. -/
def HelpPage.text (page : HelpPage) : String :=
  page.summary ++ "\n\nUsage: " ++ page.usage ++ "\n"
    ++ String.join (page.sections.map fun s => "\n" ++ s.text)

/-- The section of options; every command has the first and the last one. -/
def optionSection (entries : List (String × String)) : HelpSection :=
  ⟨"Options",
   ("    --config <CONFIG>", "Path to config file (overrides default search)") :: entries
     ++ [("-h, --help", "Print help")]⟩

/-- The section on a script file. -/
def fileSection : HelpSection :=
  ⟨"Arguments", [("<FILE>", "Script file, or - for stdin")]⟩

/-- The page of a topic. -/
def Topic.page : Topic → HelpPage
  | .program =>
    ⟨"Loopviz - Step through a script\x27s event loop", "loopviz [OPTIONS] <COMMAND>",
     [⟨"Commands",
       [("steps", "Print the steps extracted from a script"),
        ("run", "Simulate a script and print its trace and console output"),
        ("config", "Print the effective configuration as TOML"),
        ("help", "Print this message or the help of the given subcommand(s)")]⟩,
      optionSection []]⟩
  | .steps =>
    ⟨"Print the steps extracted from a script", "loopviz steps [OPTIONS] <FILE>",
     [fileSection, optionSection [("    --json", "Print steps as JSON")]]⟩
  | .run =>
    ⟨"Simulate a script and print its trace and console output", "loopviz run [OPTIONS] <FILE>",
     [fileSection,
      optionSection
        [("    --speed <SPEED>", "Speed multiplier (overrides config)"),
         ("    --interval-ms <INTERVAL_MS>", "Tick interval in milliseconds (overrides config)"),
         ("    --realtime", "Tick on the wall clock instead of as fast as possible"),
         ("    --json", "Print the run report as JSON")]]⟩
  | .config =>
    ⟨"Print the effective configuration as TOML", "loopviz config [OPTIONS]", [optionSection []]⟩
  | .help =>
    ⟨"Print this message or the help of the given subcommand(s)", "loopviz help [COMMAND]...",
     [⟨"Arguments", [("[COMMAND]...", "Print help for the subcommand(s)")]⟩]⟩

end EventLoop.CommandLine
