import TinCompiler.VirtualMachine
import TinCompiler.Machine.AccessCheck
import TinCompiler.Machine.Files
import TinCompiler.Machine.Heap
import TinCompiler.Machine.IncrEncoding
import TinCompiler.Machine.Nesting
import TinCompiler.Machine.Peephole
import TinCompiler.Machine.StackEffect
import TinCompiler.Generator.Tables
import TinCompiler.Compiler.Barrier
import TinCompiler.Compiler.Execution
import TinCompiler.Compiler.FailedParse
import TinCompiler.Compiler.Frames
import TinCompiler.Registration.Parsed
import TinCompiler.Generator.Preserved
import TinCompiler.Generator.SilentFailures
import TinCompiler.Expressions.Comparison
import TinCompiler.Expressions.PointerLevels
import TinCompiler.Lexer.Comments
import TinCompiler.Lexer.Compact
import TinCompiler.Lexer.EndOfFile
import TinCompiler.Lexer.Integers
import TinCompiler.Lexer.Reread
import TinCompiler.Lexer.Marks
import TinCompiler.Parser.Assignment
import TinCompiler.Parser.Declared
import TinCompiler.Parser.Locations
import TinCompiler.Parser.Postfix
import TinCompiler.Parser.Termination
import TinCompiler.Scheduler.DataSegment
import TinCompiler.Scheduler.Safety
import TinCompiler.ScopeSearch
import TinCompiler.Generator.Copy
import TinCompiler.Structs.TypeNames
import TinCompiler.Generator.CallSites
import TinCompiler.Generator.LiveLocals
