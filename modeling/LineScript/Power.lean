/-!
# Powers

Powers of numbers are those of the core library, also where another library
with powers of its own is in scope: a bound such as `2 ^ 64` is then the same
term in every module.
-/

attribute [instance (high)] instPowNat
attribute [default_instance 20000] instPowNat
